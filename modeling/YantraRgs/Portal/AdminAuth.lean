import YantraRgs.Portal.Webauthn

/-! # Signing in to the portals

* **`signPortalToken`**, **`portalAuth`** — the token of a session, and the check of one.
* **`login`**, **`webauthnBegin`**, **`webauthnVerify`** — how a user comes to a token.
* **`portalServer`** — all of it as a system, with what users do to their devices. -/

namespace YantraRgs.Portal

open Await
open UserInvites (InviteRole)

/-! ## Answers -/

/-- The second factors of a user. -/
structure Factors where
  totp : Bool
  webauthn : Bool
  deriving DecidableEq

/-- An answer that refuses a request. -/
structure Refusal where
  status : Nat
  error : String
  hint : Option String := none
  factors : Option Factors := none
  deriving DecidableEq

/-- Why a request comes to nothing. -/
inductive RouteError
  | refused (refusal : Refusal)
  | failed (failure : Failure)
  | mfaFailed (error : Mfa.MfaError)

/-- A request is refused. -/
def refuse {α : Type} (status : Nat) (error : String) : Except RouteError α :=
  .error (.refused { status, error })

/-- The user of a session, as the portal shows it. -/
structure UserView where
  id : Nat
  email : Text
  role : InviteRole
  displayName : Text
  mfaEnrolled : Bool

/-- The operator of a session, as the portal shows it. -/
structure OperatorView where
  id : OperatorId
  slug : Text
  name : Text
  defaultCurrency : Text
  jurisdiction : Text
  environment : Option Text

/-- What a user who signed in is handed. -/
structure SignedIn where
  token : Text
  operatorUser : UserView
  operator : OperatorView

def OperatorUser.view (user : OperatorUser) (id : Nat) : UserView where
  id := id
  email := user.email
  role := user.role
  displayName := user.displayName
  mfaEnrolled := user.secondFactor.mfaEnrolledAt.isSome

def Operator.view (operator : Operator) (id : OperatorId) (environment : Option Text) : OperatorView where
  id := id
  slug := operator.slug
  name := operator.name
  defaultCurrency := operator.defaultCurrency
  jurisdiction := operator.jurisdiction
  environment := environment

/-! ## Tokens -/

def TOKEN_TTL_SECONDS : Nat := 60 * 60 * 8

/-- What the token of a user says that is made at a time. -/
def OperatorUser.claims (user : OperatorUser) (id : Nat) (now : Millis) : PortalJwtClaims where
  sub := id
  operatorId := user.operatorId
  role := user.role
  email := user.email
  iat := now / 1000
  exp := now / 1000 + TOKEN_TTL_SECONDS

/-- **A token is made.** -/
def signPortalToken (env : Env) (via : Via) (id : Nat) (user : OperatorUser) (w : World) :
    Text × World :=
  (env.jwtSign (user.claims id w.now), { w with tokens := w.tokens ++ [⟨via, user.claims id w.now⟩] })

/-- The operator of a user, unless it is terminated. -/
def World.activeOperator (w : World) (user : OperatorUser) : Option Operator :=
  w.operators[user.operatorId]?.filter fun o => o.status ≠ .terminated

/-- Where a request has its token. -/
structure Credentials where
  authorization : Option Text
  portal_token : Option Text

/-- The token of a request. -/
def extractToken (env : Env) (req : Credentials) : Option Text :=
  match req.authorization.filter fun h => "bearer ".toList.isPrefixOf (env.toLowerCase h) with
  | some h => some (BigInt.trim (h.drop 7))
  | none => req.portal_token.filter (· ≠ [])

/-- **The check of a session**: the token is read, and its user is looked up. -/
def portalAuth (env : Env) (req : Credentials) : Action (Except RouteError (Nat × OperatorUser)) :=
  match (extractToken env req).filter (· ≠ []) with
  | none => pure (refuse 401 "missing_portal_token")
  | some token => do
      let (claims, time, forged) ← Prog.query fun w =>
        (env.jwtVerify token (w.now / 1000), w.now, !w.minted env token)
      match claims with
      | none => pure (refuse 401 "invalid_portal_token")
      | some claims =>
          Prog.request fun i w =>
            match w.users[claims.sub]?.filter fun u => u.operatorId = claims.operatorId with
            | none => (refuse 401 "portal_user_not_found", w)
            | some user =>
                if (w.activeOperator user).isNone then (refuse 401 "operator_inactive", w)
                else (.ok (claims.sub, user), w.note (.session i claims.sub time forged))

/-! ## Signing in -/

/-- What a user signs in with. -/
structure LoginBody where
  email : Text
  password : Text
  mfaCode : Option Text

/-- Whether a password has the length of one. -/
def isPassword (password : Text) : Bool := 1 ≤ password.length ∧ password.length ≤ 256

def LoginBody.valid (env : Env) (body : LoginBody) : Bool :=
  env.isEmail body.email ∧ isPassword body.password ∧ body.mfaCode.all Mfa.isTotp

/-- **A password is compared** with that of a user. -/
def comparePassword (env : Env) (id : Nat) (user : OperatorUser) (password : Text) : Action Bool :=
  Prog.request fun i w =>
    if env.bcryptCompare password user.passwordHash then (true, w.note (.password i id))
    else (false, w)

/-- **The number of devices of a user.** -/
def countDevices (id : Nat) (user : OperatorUser) : Action Nat :=
  Prog.request fun i w =>
    ((w.devices id).length,
      if user.secondFactor.mfaEnrolledAt.isNone ∧ w.devices id = [] then w.note (.noSecondFactor i id)
      else w)

/-- **A code of the authenticator of a user** is checked. -/
def checkCode (env : Env) (id : Nat) (code : Text) : Action (Except Mfa.MfaError Bool) :=
  Prog.request fun i w =>
    match Mfa.verifyMfaCode env.mfa ⟨w.now, w.users.map OperatorUser.secondFactor, []⟩ id code w.now with
    | .error e => (.error e, w)
    | .ok checked => (.ok checked.ok, if checked.ok then w.note (.secondFactor i id) else w)

/-- The time is noted at which a user signed in. -/
def World.touch (w : World) (id : Nat) : World :=
  { w with users := w.users.modify id fun u => { u with lastLoginAt := some w.now } }

/-- **A user is signed in.** -/
def signIn (env : Env) (via : Nat → Via) (id : Nat) (user : OperatorUser) (operator : Operator)
    (environment : Option Text) : Action (Except RouteError SignedIn) := do
  Prog.modify fun w => w.touch id
  let token ← Prog.request fun i w => signPortalToken env (via i) id user w
  pure (.ok ⟨token, user.view id, operator.view user.operatorId environment⟩)

/-- **The second factor of a user** who signs in with a password. -/
def secondFactor (env : Env) (id : Nat) (user : OperatorUser) (mfaCode : Option Text) :
    Action (Except RouteError Unit) := do
  let webauthnCount ← countDevices id user
  if user.secondFactor.mfaEnrolledAt.isSome ∨ 0 < webauthnCount then
    match mfaCode with
    | none => pure (.error (.refused {
        status := 401
        error := "mfa_required"
        hint := some "POST /v1/admin/auth/webauthn:begin for WebAuthn, or resubmit login with mfaCode for TOTP."
        factors := some ⟨user.secondFactor.mfaEnrolledAt.isSome, 0 < webauthnCount⟩ }))
    | some code =>
        if user.secondFactor.mfaEnrolledAt.isNone then pure (refuse 401 "totp_not_enrolled")
        else do
          let mfa ← checkCode env id code
          match mfa with
          | .error e => pure (.error (.mfaFailed e))
          | .ok false => pure (refuse 401 "invalid_mfa_code")
          | .ok true => pure (.ok ())
  else pure (.ok ())

/-- **A user signs in with a password**, and with a code where there is a second factor. -/
def login (env : Env) (body : LoginBody) : Action (Except RouteError SignedIn) :=
  if ¬ body.valid env then pure (refuse 400 "invalid_body")
  else do
    let found ← Prog.query fun w =>
      (w.userOfEmail (env.toLowerCase body.email)).map fun x => (x, w.activeOperator x.2)
    match found with
    | none => pure (refuse 401 "invalid_credentials")
    | some ((id, user), operator) =>
        if user.disabledAt.isSome then pure (refuse 403 "user_disabled")
        else do
          let ok ← comparePassword env id user body.password
          if ¬ ok then pure (refuse 401 "invalid_credentials")
          else
            match operator with
            | none => pure (refuse 403 "operator_inactive")
            | some operator => do
                let checked ← secondFactor env id user body.mfaCode
                match checked with
                | .error e => pure (.error e)
                | .ok () => signIn env .password id user operator (some operator.environment)

/-- **A challenge is asked for**, with a password. -/
def webauthnBegin (env : Env) (email password : Text) :
    Action (Except RouteError (Begun RequestOptions)) :=
  if ¬ (env.isEmail email ∧ isPassword password) then pure (refuse 400 "invalid_body")
  else do
    let found ← Prog.query fun w => w.userOfEmail (env.toLowerCase email)
    match found with
    | none => pure (refuse 401 "invalid_credentials")
    | some (id, user) =>
        if user.disabledAt.isSome then pure (refuse 403 "user_disabled")
        else do
          let ok ← comparePassword env id user password
          if ¬ ok then pure (refuse 401 "invalid_credentials")
          else do
            let challenge ← beginAuthentication env user.email
            match challenge with
            | none => pure (refuse 400 "no_webauthn_credentials")
            | some challenge => pure (.ok challenge)

/-- **A challenge is answered**: the user of the device that signed is signed in. -/
def webauthnVerify (env : Env) (email : Text) (challengeId : Nat) (response : AuthenticationResponse) :
    Action (Except RouteError SignedIn) :=
  if ¬ env.isEmail email then pure (refuse 400 "invalid_body")
  else do
    let verified ← verifyAuthentication env (env.toLowerCase email) challengeId response
    match verified with
    | .error .rejected => pure (refuse 401 "verification_failed")
    | .error failure => pure (.error (.failed failure))
    | .ok verified => do
        let found ← Prog.query fun w =>
          w.users[verified.userId]?.bind fun user => (w.activeOperator user).map fun o => (user, o)
        match found with
        | none => pure (refuse 403 "operator_inactive")
        | some (user, operator) =>
            signIn env (fun i => .webauthn i challengeId verified.credential) verified.userId user
              operator none

/-! ## The system -/

/-- What can be called. -/
inductive Call
  | login (body : LoginBody)
  | webauthnBegin (email password : Text)
  | webauthnVerify (email : Text) (challengeId : Nat) (response : AuthenticationResponse)
  | registerBegin (req : Credentials)
  | registerConfirm (req : Credentials) (challengeId : Nat) (response : Value) (deviceName : Option Text)
  | deleteCredential (req : Credentials) (credentialRowId : Nat)
  | sweep

/-- A request of a session: the session is checked first. -/
def session (env : Env) (req : Credentials) (body : Nat → OperatorUser → Action Unit) : Action Unit := do
  let actor ← portalAuth env req
  match actor with
  | .error _ => pure ()
  | .ok (id, user) => body id user

/-- The program of a call. -/
def Call.code (env : Env) : Call → Action Unit
  | .login body => do
      let _ ← Portal.login env body
      pure ()
  | .webauthnBegin email password => do
      let _ ← Portal.webauthnBegin env email password
      pure ()
  | .webauthnVerify email challengeId response => do
      let _ ← Portal.webauthnVerify env email challengeId response
      pure ()
  | .registerBegin req =>
      session env req fun id user => do
        let _ ← beginRegistration env id user.email user.displayName
        pure ()
  | .registerConfirm req challengeId response deviceName =>
      session env req fun id _ =>
        if deviceName.all fun name => decide (name.length ≤ 100) then do
          let _ ← confirmRegistration env id challengeId response deviceName
          pure ()
        else pure ()
  | .deleteCredential req credentialRowId =>
      session env req fun id _ => do
        let _ ← Portal.deleteCredential id credentialRowId
        pure ()
  | .sweep => do
      let _ ← sweepExpiredChallenges
      pure ()

/-- What happens outside. -/
inductive Outside
  /-- Time passes. -/
  | elapse (ms : Millis)
  /-- An operator is added. -/
  | addOperator (operator : Operator)
  /-- The status of an operator changes. -/
  | setStatus (operatorId : OperatorId) (status : OperatorStatus)
  /-- Somebody accepts an invitation and is signed in. -/
  | accept (operatorId : OperatorId) (email passwordHash : Text) (role : InviteRole) (displayName : Text)
  /-- A user is disabled or enabled. -/
  | setDisabled (userId : Nat) (disabledAt : Option Millis)
  /-- The authenticator of a user changes. -/
  | setFactor (userId : Nat) (secondFactor : Mfa.OperatorUser)

/-- A user that comes from an invitation. -/
def invited (operatorId : OperatorId) (email passwordHash : Text) (role : InviteRole)
    (displayName : Text) : OperatorUser where
  operatorId := operatorId
  email := email
  passwordHash := passwordHash
  role := role
  displayName := displayName
  disabledAt := none
  lastLoginAt := none
  secondFactor := ⟨none, none, none⟩

/-- What happens to the world from outside. -/
def World.outside (env : Env) (w : World) : Outside → Option World
  | .elapse ms => some { w with now := w.now + ms }
  | .addOperator operator => some { w with operators := w.operators ++ [operator] }
  | .setStatus operatorId status =>
      some { w with operators := w.operators.modify operatorId fun o => { o with status } }
  | .accept operatorId email passwordHash role displayName =>
      if w.users.any fun u => u.email = email then none
      else
        let user := invited operatorId email passwordHash role displayName
        some (signPortalToken env .invitation w.users.length user
          { w with users := w.users ++ [user] }).2
  | .setDisabled userId disabledAt =>
      some { w with users := w.users.modify userId fun u => { u with disabledAt } }
  | .setFactor userId secondFactor =>
      some { w with users := w.users.modify userId fun u => { u with secondFactor } }

/-- **The server, as far as its portals go.** -/
def portalServer (env : Env) : System World Text Call Outside where
  code := Call.code env
  admits _ _ := true
  env x w := w.outside env x
  dies _ _ := false

/-- A state of the server. -/
abbrev State := Pool World Text Call

/-- An event of the server. -/
abbrev Happening := Event Text Call Outside

/-- A server with users who have neither tokens nor devices. -/
def initial (now : Millis) (operators : List Operator) (users : List OperatorUser) : State :=
  ⟨⟨now, operators, users, [], [], [], [], []⟩, []⟩

end YantraRgs.Portal
