import YantraRgs.Portal.World

/-! # Devices of users

A device is enrolled with an answer to one challenge and signs its user in with answers to others. Each
answer is verified, and then a transaction takes it in and deletes the challenge.

* **`beginRegistration`**, **`confirmRegistration`** — a device is enrolled.
* **`beginAuthentication`**, **`verifyAuthentication`** — a device signs its user in.
* **`deleteCredential`**, **`sweepExpiredChallenges`** — rows are deleted. -/

namespace YantraRgs.Portal

open Await

def CHALLENGE_TTL_MS : Millis := 5 * 60000

/-- Why an operation comes to nothing. -/
inductive Failure
  /-- The challenge or the answer does not do. -/
  | rejected
  /-- The answer is thrown out with a message. -/
  | thrown (message : Text)
  /-- A row that a transaction changes is not there. -/
  | recordNotFound
  /-- The device is in the table already. -/
  | credentialIdTaken
  deriving DecidableEq

def rpId (env : Env) : Text := env.WEBAUTHN_RP_ID.getD "localhost".toList

def rpName (env : Env) : Text := env.WEBAUTHN_RP_NAME.getD "Yantra".toList

/-- The origins from which answers may come. -/
def expectedOrigins (env : Env) : List Text :=
  match env.WEBAUTHN_ORIGINS.filter (· ≠ []) with
  | some raw => ((raw.splitOn ',').map BigInt.trim).filter (· ≠ [])
  | none => ["http://localhost:3101".toList, "http://localhost:3103".toList]

/-- What is expected of an answer to a challenge. -/
def expected (env : Env) (challenge : WebauthnChallenge) : Expected where
  expectedChallenge := challenge.challenge
  expectedOrigin := expectedOrigins env
  expectedRPID := rpId env
  requireUserVerification := false

/-- A device as the browser is told of it. -/
structure CredentialDescriptor where
  id : Text
  transports : List Text
  deriving DecidableEq

/-- A device as the browser is told of it. -/
def WebauthnCredential.descriptor (c : WebauthnCredential) : CredentialDescriptor :=
  ⟨c.credentialId, c.transports⟩

/-- A challenge is added to the table. -/
def World.addChallenge (w : World) (challenge : WebauthnChallenge) : World :=
  { w with challenges := w.challenges ++ [challenge] }

/-- What a challenge is handed out with. -/
structure Begun (Options : Type) where
  options : Options
  challengeId : Nat
  expiresAt : Text

/-- **A challenge is drawn** and added to the table. -/
def issueChallenge (userId : Option Nat) (email : Text) (kind : ChallengeKind) {Options : Type}
    (options : Text → Options) : Action (Begun Options) := do
  let (challenge, expiresAt) ← Prog.lift fun _ drawn w =>
    some ((drawn, w.now + CHALLENGE_TTL_MS), w)
  Prog.request fun i w =>
    (⟨options challenge, w.challenges.length, toISOString expiresAt⟩,
      w.addChallenge ⟨userId, some email, challenge, kind, expiresAt, i, false⟩)

/-! ## Enrolment -/

/-- What the browser enrols a device with. -/
structure CreationOptions where
  rpName : Text
  rpID : Text
  userID : Nat
  userName : Text
  userDisplayName : Text
  challenge : Text
  attestationType : String
  residentKey : String
  userVerification : String
  excludeCredentials : List CredentialDescriptor

/-- **An enrolment begins**; the devices of the user are excluded. -/
def beginRegistration (env : Env) (userId : Nat) (userEmail userDisplayName : Text) :
    Action (Begun CreationOptions) := do
  let existing ← Prog.query fun w => (w.devices userId).map WebauthnCredential.descriptor
  issueChallenge (some userId) userEmail .register fun challenge =>
    { rpName := rpName env
      rpID := rpId env
      userID := userId
      userName := userEmail
      userDisplayName
      challenge
      attestationType := "none"
      residentKey := "preferred"
      userVerification := "preferred"
      excludeCredentials := existing }

/-- The device of an enrolment. -/
def RegistrationInfo.row (info : RegistrationInfo) (userId : Nat) (deviceName : Option Text)
    (call : Nat) : WebauthnCredential where
  userId := userId
  credentialId := info.id
  publicKey := info.publicKey
  counter := info.counter
  transports := info.transports.getD []
  aaguid := info.aaguid
  deviceName := deviceName.map (List.take 100)
  backedUp := info.credentialBackedUp.getD false
  lastUsedAt := none
  enrolledBy := call
  deletedBy := none

/-- The row of a challenge is deleted. -/
def World.deleteChallenge (w : World) (id : Nat) : World :=
  { w with challenges := w.challenges.modify id fun c => { c with deleted := true } }

/-- **The transaction of an enrolment.** -/
def World.enrol (w : World) (call challengeId : Nat) (row : WebauthnCredential) (response : Value) :
    Except Failure World :=
  if (w.credentialNamed row.credentialId).isSome then .error .credentialIdTaken
  else if (w.challenge challengeId).isNone then .error .recordNotFound
  else
    .ok { w.deleteChallenge challengeId with
      credentials := w.credentials ++ [row]
      uses := w.uses ++ [.enrolment call challengeId w.credentials.length response] }

/-- **An enrolment is confirmed** with the answer of the device. -/
def confirmRegistration (env : Env) (userId challengeId : Nat) (response : Value)
    (deviceName : Option Text) : Action (Except Failure Text) := do
  let challenge ← Prog.query fun w => w.challenge challengeId
  match challenge with
  | none => pure (.error .rejected)
  | some challenge =>
      if challenge.userId ≠ some userId ∨ challenge.kind ≠ .register then pure (.error .rejected)
      else do
        let now ← Prog.query World.now
        if challenge.expiresAt < now then pure (.error .rejected)
        else
          match env.verifyRegistrationResponse response (expected env challenge) with
          | .error message => pure (.error (.thrown message))
          | .ok none => pure (.error .rejected)
          | .ok (some info) =>
              Prog.request fun i w =>
                match w.enrol i challengeId (info.row userId deviceName i) response with
                | .error e => (.error e, w)
                | .ok w' => (.ok info.id, w')

/-! ## Authentication -/

/-- What the browser has a device sign with. -/
structure RequestOptions where
  rpID : Text
  challenge : Text
  userVerification : String
  allowCredentials : Option (List CredentialDescriptor)

/-- What is asked of the devices that are allowed. -/
def requestOptions (env : Env) (allowCredentials : Option (List CredentialDescriptor))
    (challenge : Text) : RequestOptions where
  rpID := rpId env
  challenge := challenge
  userVerification := "preferred"
  allowCredentials := allowCredentials

/-- **A challenge for the devices of an address**; there is none for a user without devices. Where no
user has the address there is one all the same, so that nobody learns of it. -/
def beginAuthentication (env : Env) (address : Text) : Action (Option (Begun RequestOptions)) := do
  let email := env.toLowerCase address
  let user ← Prog.query fun w => w.userOfEmail email
  match user with
  | none => do
      let begun ← issueChallenge none email .authenticate (requestOptions env none)
      pure (some begun)
  | some (userId, _) => do
      let creds ← Prog.query fun w => w.devices userId
      if creds = [] then pure none
      else do
        let begun ← issueChallenge (some userId) email .authenticate
          (requestOptions env (some (creds.map WebauthnCredential.descriptor)))
        pure (some begun)

/-- What the verification of a signature is told of the device. -/
def WebauthnCredential.device (c : WebauthnCredential) : AuthenticatorDevice :=
  ⟨c.credentialId, c.publicKey, c.counter, c.transports⟩

/-- **The transaction of a signature**: the device has a new counter, and the challenge is gone. -/
def World.login (w : World) (call challengeId credential : Nat) (response : AuthenticationResponse)
    (counter newCounter : Nat) (time : Millis) : Except Failure World :=
  if (w.credential credential).isNone then .error .recordNotFound
  else if (w.challenge challengeId).isNone then .error .recordNotFound
  else
    .ok { w.deleteChallenge challengeId with
      credentials := w.credentials.modify credential fun c =>
        { c with counter := newCounter, lastUsedAt := some w.now }
      uses := w.uses ++ [.login call challengeId credential response counter newCounter time] }

/-- A signature that was taken in: the number of the device, and its user. -/
structure Verified where
  credential : Nat
  userId : Nat

/-- **The signature of a device**, for an address. -/
def verifyAuthentication (env : Env) (email : Text) (challengeId : Nat)
    (response : AuthenticationResponse) : Action (Except Failure Verified) := do
  let challenge ← Prog.query fun w => w.challenge challengeId
  match challenge with
  | none => pure (.error .rejected)
  | some challenge =>
      if challenge.kind ≠ .authenticate ∨
          challenge.email.map env.toLowerCase ≠ some (env.toLowerCase email) then
        pure (.error .rejected)
      else do
        let now ← Prog.query World.now
        if challenge.expiresAt < now then pure (.error .rejected)
        else do
          let cred ← Prog.query fun w => w.credentialNamed response.id
          match cred with
          | none => pure (.error .rejected)
          | some (id, cred) =>
              match env.verifyAuthenticationResponse response (expected env challenge)
                  cred.device with
              | .error message => pure (.error (.thrown message))
              | .ok none => pure (.error .rejected)
              | .ok (some newCounter) =>
                  Prog.request fun i w =>
                    match w.login i challengeId id response cred.counter newCounter now with
                    | .error e => (.error e, w)
                    | .ok w' => (.ok ⟨id, cred.userId⟩, w')

/-! ## Deletion -/

/-- **A user deletes a device.** -/
def deleteCredential (userId credentialRowId : Nat) : Action (Except Failure Bool) := do
  let row ← Prog.query fun w => w.credential credentialRowId
  match row with
  | none => pure (.ok false)
  | some row =>
      if row.userId ≠ userId then pure (.ok false)
      else
        Prog.request fun i w =>
          if (w.credential credentialRowId).isNone then (.error .recordNotFound, w)
          else (.ok true, { w with
            credentials := w.credentials.modify credentialRowId fun c =>
              { c with deletedBy := some i } })

/-- **The challenges that have ended are deleted.** -/
def sweepExpiredChallenges : Action Nat :=
  Prog.request fun _ w =>
    (w.challenges.countP (fun c => !c.deleted && c.expiresAt < w.now), { w with
      challenges := w.challenges.map fun c =>
        if c.expiresAt < w.now then { c with deleted := true } else c })

end YantraRgs.Portal
