import Chatroom.Http.Dbm.Register
import Chatroom.Http.Token
import Chatroom.OnlineStatus

/-!
# The requests to the gateway (`ReqHandler`)

What `RequestHandler` decides without asking anybody: which handler a request goes to, what is read out
of its body, and what is answered once the database, the status server or Redis has replied. A request
that needs a reply is at a `Stage`, which says what is asked next and holds what is known by then. There
is one stage before each call to the outside: of MySQL, of the status server, of Redis, of OpenSSL's
random numbers, of the clock.

`Json::Reader::parse` throws on a body that is nested too deep, and it is called outside of the `try`;
then `RequestHandler` does not return.

The header `Server`, which is the same in all responses, is left out.
-/

namespace Chatroom.Gateway

open Register (GatewayCode)

inductive Verb where
  | get
  | post
  | other
  deriving DecidableEq, Repr

structure HttpRequest where
  method : Verb
  target : String
  version : ℕ
  keepAlive : Bool
  body : List UInt8
  deriving DecidableEq, Repr

inductive Status where
  | ok
  | badRequest
  | forbidden
  | notFound
  | conflict
  | internalServerError
  deriving DecidableEq, Repr

inductive ContentType where
  | textHtml
  | applicationJson
  deriving DecidableEq, Repr

inductive JsonValue where
  | str (s : String)
  | bytes (bs : List UInt8)
  | num (n : ℕ)
  deriving DecidableEq, Repr

inductive Body where
  | text (s : String)
  | json (fields : List (String × JsonValue))
  deriving DecidableEq, Repr

structure Response where
  status : Status
  version : ℕ
  keepAlive : Bool
  contentType : ContentType
  body : Body
  deriving DecidableEq, Repr

/-- The answer is neither a success nor the request to try again. -/
def Response.refuses (resp : Response) : Bool :=
  match resp.status with
  | .ok | .conflict => false
  | _ => true

/-! ## Responses

The answers of the handlers, with their texts. Those for errors copy the version of the request; those
that are
built field by field do not, and keep the default. -/

/-- The functions that answer an error have the version of the request and a text. -/
def errorResponse (status : Status) (req : HttpRequest) (text : String) : Response where
  status := status
  version := req.version
  keepAlive := req.keepAlive
  contentType := .textHtml
  body := .text text

def badRequest (req : HttpRequest) (prompt : String) : Response := errorResponse .badRequest req prompt

def forbiddenRequest (req : HttpRequest) (prompt : String) : Response :=
  errorResponse .forbidden req prompt

def notFound (req : HttpRequest) : Response :=
  errorResponse .notFound req ("The resource '" ++ req.target ++ "' was not found.")

def serverError (req : HttpRequest) (what : String) : Response :=
  errorResponse .internalServerError req what

/-- A response that is built field by field keeps the default version, HTTP/1.1. -/
def plainResponse (status : Status) (req : HttpRequest) (contentType : ContentType) (body : Body) :
    Response where
  status := status
  version := 11
  keepAlive := req.keepAlive
  contentType := contentType
  body := body

def pingLogic (req : HttpRequest) : Response := plainResponse .ok req .textHtml (.text "pong")

/-- The three answers in JSON. -/
def retryResponse (req : HttpRequest) : Response :=
  plainResponse .conflict req .applicationJson
    (.json [("result", .str "retry"), ("message", .str "User already online, please retry later")])

def loginResponse (req : HttpRequest) (token addr : List UInt8) (uid : UInt64) : Response :=
  plainResponse .ok req .applicationJson
    (.json [("result", .str "ok"), ("token", .bytes token), ("server_addr", .bytes addr),
      ("uid", .num uid.toNat)])

def registerResponse (req : HttpRequest) : Response :=
  plainResponse .ok req .applicationJson (.json [("result", .num 0), ("message", .str "success")])

/-! ## The stages of a request

`LoginLogic` and `PostRegisterLogic` are cut into pieces at their calls to the outside. The functions
`…Returned`
are the pieces: each takes the result of a call and gives the next stage. -/

/-- What is read out of the body: the parser throws, it is no JSON, the fields cannot be converted, or
the two values. -/
inductive Credentials where
  | throws
  | invalid
  | badFields
  | fields (username passcode : List UInt8)
  deriving DecidableEq, Repr

inductive Stage where
  /-- `LoginLogic`, before `VerifyUserInfo`, `CheckMinimalLoadServer`, the clock and the `HSETEX` of
  `UpdateUserInfo`, `UserLoginAttempt`, the `RAND_bytes` of `TokenGenerator`, `RegisterUserToken` and
  `SendServerKickCmd`. -/
  | verify (username passcode : List UInt8)
  | route (uid : UInt64) (username : List UInt8)
  | stamp (uid : UInt64) (username addr : List UInt8)
  | info (uid : UInt64) (username : List UInt8) (lastLogin : UInt64) (addr : List UInt8)
  | attempt (uid : UInt64) (addr : List UInt8)
  | draw (uid : UInt64) (addr : List UInt8)
  | token (token : List UInt8) (uid : UInt64) (addr : List UInt8)
  | kick (oldServer : List UInt8) (uid : UInt64)
  /-- `PostRegisterLogic`, before `Generate`, and the `SELECT`, the `RAND_bytes` of `HashPassword` and the
  `INSERT` of `RegisterNew`. -/
  | generate (username passcode : List UInt8)
  | count (username passcode : List UInt8) (uid : UInt64)
  | salt (username passcode : List UInt8) (uid : UInt64)
  | insert (username passcode : List UInt8) (uid : UInt64) (codeHash : List UInt8)
  | done (resp : Response)
  deriving DecidableEq, Repr

/-- The begin of `LoginLogic` and of `PostRegisterLogic`: a body that cannot be read is refused. There is
no stage if the parser throws. -/
def readCredentials (parse : List UInt8 → Credentials) (req : HttpRequest)
    (next : List UInt8 → List UInt8 → Stage) : Option Stage :=
  match parse req.body with
  | .throws => none
  | .invalid => some (.done (badRequest req "Invalid request format"))
  | .badFields => some (.done (badRequest req "Invalid request format"))
  | .fields username passcode => some (next username passcode)

def loginLogic (parse : List UInt8 → Credentials) (req : HttpRequest) : Option Stage :=
  readCredentials parse req .verify

def postRegisterLogic (parse : List UInt8 → Credentials) (req : HttpRequest) : Option Stage :=
  readCredentials parse req .generate

def postHandler (parse : List UInt8 → Credentials) (req : HttpRequest) : Option Stage :=
  if req.target = "/login" then loginLogic parse req
  else if req.target = "/register" then postRegisterLogic parse req
  else if req.target = "/ping" then some (.done (pingLogic req))
  else some (.done (notFound req))

def getHandler (req : HttpRequest) : Stage :=
  if req.target = "/login" then .done (badRequest req "Bad method for login")
  else if req.target = "/register" then .done (badRequest req "Bad method for register")
  else if req.target = "/ping" then .done (pingLogic req)
  else .done (notFound req)

/-- There is no stage if an exception leaves `RequestHandler`. -/
def requestHandler (parse : List UInt8 → Credentials) (req : HttpRequest) : Option Stage :=
  match req.method with
  | .get => some (getHandler req)
  | .post => postHandler parse req
  | .other => some (.done (badRequest req "Unsupported HTTP-method for this server"))

/-- `VerifyUserInfo` has returned. Whether the user or the password was wrong is not told. -/
def verifyReturned (req : HttpRequest) (username : List UInt8) (uid : UInt64) : GatewayCode → Stage
  | .success => .route uid username
  | .userNotExist | .verifyFailed =>
    .done (forbiddenRequest req "Incorrect login username or password")
  | _ => .done (serverError req "Server error")

/-- `CheckMinimalLoadServer` has returned an address, or an error. -/
def routeReturned (req : HttpRequest) (uid : UInt64) (username : List UInt8) :
    Option (List UInt8) → Stage
  | some addr => .stamp uid username addr
  | none => .done (serverError req "Server error")

/-- `UserLoginAttempt` has returned: success, or the server where the user is. -/
def attemptReturned (req : HttpRequest) (uid : UInt64) (addr oldServer : List UInt8) : Stage :=
  if oldServer = [] then .draw uid addr
  else if oldServer = OnlineStatus.unset then
    .done (forbiddenRequest req "Another client is trying to login!")
  else .kick oldServer uid

/-- `RegisterNew` has returned. -/
def registerReturned (req : HttpRequest) : GatewayCode → Stage
  | .success => .done (registerResponse req)
  | .regAlreadyExist => .done (forbiddenRequest req "Username already exists")
  | .mysqlServerError => .done (serverError req "MySQL server error")
  | _ => .done (serverError req "Server error")

/-- What `LoginLogic` makes of the answer of the script. -/
theorem attemptReturned_cases (req : HttpRequest) (uid : UInt64) (addr oldServer : List UInt8) :
    attemptReturned req uid addr oldServer = .draw uid addr ∨
      (∃ oldServer', attemptReturned req uid addr oldServer = .kick oldServer' uid) ∨
      attemptReturned req uid addr oldServer =
        .done (forbiddenRequest req "Another client is trying to login!") := by
  unfold attemptReturned
  split
  · exact .inl rfl
  split
  · exact .inr (.inr rfl)
  · exact .inr (.inl ⟨_, rfl⟩)

/-! ## What a request can come to without a reply

The front of the handler: methods, targets and bodies. Whatever is not a `POST` of credentials is
answered at
once. -/

/-- The two requests that get further than their body. -/
inductive Begins (parse : List UInt8 → Credentials) (req : HttpRequest) : Stage → Prop
  | login {username passcode} : req.method = .post → req.target = "/login" →
      parse req.body = .fields username passcode → Begins parse req (.verify username passcode)
  | register {username passcode} : req.method = .post → req.target = "/register" →
      parse req.body = .fields username passcode → Begins parse req (.generate username passcode)
  | ping : Begins parse req (.done (pingLogic req))
  | refused {resp} : resp.refuses = true → Begins parse req (.done resp)

variable {parse : List UInt8 → Credentials} {req : HttpRequest} {st : Stage}

/-- A body that is read leads on; one that is not is refused. -/
theorem begins_readCredentials {next : List UInt8 → List UInt8 → Stage}
    (hnext : ∀ {username passcode}, parse req.body = .fields username passcode →
      Begins parse req (next username passcode))
    (h : readCredentials parse req next = some st) : Begins parse req st := by
  unfold readCredentials at h
  split at h
  · cases h
  · cases h
    exact .refused rfl
  · cases h
    exact .refused rfl
  · next hbody =>
    cases h
    exact hnext hbody

/-- A `POST`, by its target. -/
theorem begins_postHandler (hmethod : req.method = .post) (h : postHandler parse req = some st) :
    Begins parse req st := by
  unfold postHandler at h
  split at h
  · next htarget => exact begins_readCredentials (fun hbody => .login hmethod htarget hbody) h
  split at h
  · next htarget => exact begins_readCredentials (fun hbody => .register hmethod htarget hbody) h
  split at h
  · cases h
    exact .ping
  · cases h
    exact .refused rfl

/-- A `GET` is a ping, or refused. -/
theorem begins_getHandler : Begins parse req (getHandler req) := by
  unfold getHandler
  split
  · exact .refused rfl
  split
  · exact .refused rfl
  split
  · exact .ping
  · exact .refused rfl

/-- **Only a `POST` with a readable body gets past the front**, and what is answered there with `200`
is a ping. -/
theorem begins_requestHandler (h : requestHandler parse req = some st) : Begins parse req st := by
  unfold requestHandler at h
  split at h
  · cases h
    exact begins_getHandler
  · next hmethod => exact begins_postHandler hmethod h
  · cases h
    exact .refused rfl

end Chatroom.Gateway
