import YantraRgs.Await.Pool
import YantraRgs.Services.Mfa
import YantraRgs.Services.UserInvites

/-! # The portals and their users

A user of a portal signs in with a password and a second factor, which is a code of an authenticator or
a signature by a device that the user enrolled. A signature answers a challenge, which is kept in the
database until it was answered.

* **`Env`** — the primitives, with what is documented of them.
* **`WebauthnCredential`**, **`WebauthnChallenge`** — the devices and the challenges.
* **`World`** — the tables, with a record of what was checked for whom. -/

namespace YantraRgs.Portal

open Await
open UserInvites (InviteRole)

/-! ## What comes from elsewhere -/

/-- What the token of a portal says; times are in seconds. -/
structure PortalJwtClaims where
  sub : Nat
  operatorId : OperatorId
  role : InviteRole
  email : Text
  iat : Nat
  exp : Nat
  deriving DecidableEq

/-- What a device is expected to have answered. -/
structure Expected where
  expectedChallenge : Text
  expectedOrigin : List Text
  expectedRPID : Text
  requireUserVerification : Bool

/-- What is known of a device when a signature is verified. -/
structure AuthenticatorDevice where
  id : Text
  publicKey : List Byte
  counter : Nat
  transports : List Text

/-- What an enrolment says of a device. -/
structure RegistrationInfo where
  id : Text
  publicKey : List Byte
  counter : Nat
  transports : Option (List Text)
  aaguid : Option Text
  credentialBackedUp : Option Bool

/-- The answer of a device to a challenge: which one it is, and everything else. -/
structure AuthenticationResponse where
  id : Text
  rest : Value

/-- **The primitives**: lower case, addresses, passwords, tokens, and what devices sign. A token that
was made is read back until it ends. A verified signature has a greater counter than the last one, or
the device has no counter. -/
structure Env where
  mfa : Mfa.Env
  toLowerCase : Text → Text
  isEmail : Text → Bool
  bcryptCompare : Text → Text → Bool
  jwtSign : PortalJwtClaims → Text
  jwtVerify : Text → Nat → Option PortalJwtClaims
  jwtVerify_jwtSign : ∀ claims seconds,
    jwtVerify (jwtSign claims) seconds = if claims.exp ≤ seconds then none else some claims
  WEBAUTHN_RP_ID : Option Text
  WEBAUTHN_RP_NAME : Option Text
  WEBAUTHN_ORIGINS : Option Text
  verifyRegistrationResponse : Value → Expected → Except Text (Option RegistrationInfo)
  verifyAuthenticationResponse : AuthenticationResponse → Expected → AuthenticatorDevice →
    Except Text (Option Nat)
  counter_rises : ∀ response expected device newCounter,
    verifyAuthenticationResponse response expected device = .ok (some newCounter) →
      device.counter < newCounter ∨ (device.counter = 0 ∧ newCounter = 0)

/-! ## The tables -/

/-- The status of an operator. -/
inductive OperatorStatus
  | active
  | paused
  | terminated
  deriving DecidableEq

/-- An operator. -/
structure Operator where
  slug : Text
  name : Text
  defaultCurrency : Text
  jurisdiction : Text
  environment : Text
  status : OperatorStatus
  deriving DecidableEq

/-- A user of a portal. -/
structure OperatorUser where
  operatorId : OperatorId
  email : Text
  passwordHash : Text
  role : InviteRole
  displayName : Text
  disabledAt : Option Millis
  lastLoginAt : Option Millis
  secondFactor : Mfa.OperatorUser
  deriving DecidableEq

/-- A device of a user. -/
structure WebauthnCredential where
  userId : Nat
  credentialId : Text
  publicKey : List Byte
  counter : Nat
  transports : List Text
  aaguid : Option Text
  deviceName : Option Text
  backedUp : Bool
  lastUsedAt : Option Millis
  /-- The call that enrolled the device. -/
  enrolledBy : Nat
  /-- The call that deleted the row. -/
  deletedBy : Option Nat
  deriving DecidableEq

/-- What a challenge is for. -/
inductive ChallengeKind
  | register
  | authenticate
  deriving DecidableEq

/-- A challenge. -/
structure WebauthnChallenge where
  userId : Option Nat
  email : Option Text
  challenge : Text
  kind : ChallengeKind
  expiresAt : Millis
  /-- The call that made the challenge. -/
  issuedBy : Nat
  /-- Whether the row was deleted. -/
  deleted : Bool
  deriving DecidableEq

/-! ## What was checked -/

/-- A check that a call passed. -/
inductive Check
  /-- The password of a user. -/
  | password (call userId : Nat)
  /-- The user has no second factor. -/
  | noSecondFactor (call userId : Nat)
  /-- A code of the user's authenticator. -/
  | secondFactor (call userId : Nat)
  /-- A token of the user, at a time; it may be one that was never handed out. -/
  | session (call userId : Nat) (time : Millis) (forged : Bool)

/-- A challenge that was answered. -/
inductive Use
  /-- A device was enrolled. -/
  | enrolment (call challengeId credential : Nat) (response : Value)
  /-- A device signed, with the counter that was known of it and its new one; the challenge was checked
  at a time. -/
  | login (call challengeId credential : Nat) (response : AuthenticationResponse)
      (counter newCounter : Nat) (time : Millis)

/-- The challenge that was answered. -/
def Use.challengeId : Use → Nat
  | .enrolment _ challengeId _ _ => challengeId
  | .login _ challengeId _ _ _ _ _ => challengeId

/-- How a user came to a token. -/
inductive Via
  | invitation
  | password (call : Nat)
  | webauthn (call challengeId credential : Nat)
  deriving DecidableEq

/-- A token that was handed out. -/
structure PortalToken where
  via : Via
  claims : PortalJwtClaims
  deriving DecidableEq

/-- The tables, with what was checked, answered and handed out. -/
structure World where
  now : Millis
  operators : List Operator
  users : List OperatorUser
  credentials : List WebauthnCredential
  challenges : List WebauthnChallenge
  checks : List Check
  uses : List Use
  tokens : List PortalToken

/-- A piece of a call; what is drawn is the text of a challenge. -/
abbrev Action := Prog World Text

/-- A check is noted. -/
def World.note (w : World) (check : Check) : World := { w with checks := w.checks ++ [check] }

/-- The user with an address. -/
def World.userOfEmail (w : World) (email : Text) : Option (Nat × OperatorUser) :=
  (w.users.findIdx? fun u => u.email = email).bind fun id => w.users[id]?.map fun u => (id, u)

/-- The challenge with a number. -/
def World.challenge (w : World) (id : Nat) : Option WebauthnChallenge :=
  w.challenges[id]?.filter fun c => !c.deleted

/-- The device with a number. -/
def World.credential (w : World) (id : Nat) : Option WebauthnCredential :=
  w.credentials[id]?.filter fun c => c.deletedBy = none

/-- The device with a name of its own. -/
def World.credentialNamed (w : World) (credentialId : Text) : Option (Nat × WebauthnCredential) :=
  (w.credentials.findIdx? fun c => c.deletedBy = none ∧ c.credentialId = credentialId).bind fun id =>
    w.credentials[id]?.map fun c => (id, c)

/-- The devices of a user. -/
def World.devices (w : World) (userId : Nat) : List WebauthnCredential :=
  w.credentials.filter fun c => c.deletedBy = none ∧ c.userId = userId

/-- Whether a text is a token that was handed out. -/
def World.minted (env : Env) (w : World) (token : Text) : Bool :=
  w.tokens.any fun m => env.jwtSign m.claims = token

end YantraRgs.Portal
