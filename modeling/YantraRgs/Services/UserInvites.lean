import YantraRgs.Await.Pool
import YantraRgs.Services.SigningKeys
import YantraRgs.Text.Integer

/-! # Invitations of operator users

An invitation is a token, of which the database keeps a digest. Whoever has the token may make an
account with it once, until it ends or is revoked; a new invitation for the same address revokes the
old ones.

* **`createInvite`**, **`acceptInvite`**, **`revokeInvite`** — the three operations.
* **`inviteServer`** — all of it as a system. -/

namespace YantraRgs.UserInvites

open Await SigningKeys

def DEFAULT_TTL_MS : Millis := 48 * 60 * 60000

/-- **The primitives**: lower case, the digest of a token, and the hash of a password under a salt. -/
structure Env where
  toLowerCase : Text → Text
  sha256 : Text → Text
  bcryptHash : Text → Text → Text

/-- The role of a user. -/
inductive InviteRole
  | operatorAdmin
  | operatorFinance
  | operatorSupport
  | operatorViewer
  deriving DecidableEq

/-- An invitation. -/
structure OperatorUserInvite where
  operatorId : OperatorId
  email : Text
  role : InviteRole
  tokenHash : Text
  invitedByEmail : Text
  expiresAt : Millis
  acceptedAt : Option Millis
  revokedAt : Option Millis
  deriving DecidableEq

/-- A user. -/
structure OperatorUser where
  operatorId : OperatorId
  email : Text
  passwordHash : Text
  role : InviteRole
  displayName : Text
  deriving DecidableEq

/-- The tables, with what is needed to say what invitations are for. -/
structure World where
  now : Millis
  invites : List OperatorUserInvite
  users : List OperatorUser
  /-- The invitations that are known to be dead: their revocation was confirmed, or a newer token for
  their operator and address was handed out. -/
  dead : List Nat
  /-- The invitations that were accepted, each with whether it was dead then. -/
  accepts : List (Nat × Bool)

/-- Why an operation fails. -/
inductive InviteError
  | invalidEmail
  | emailAlreadyInUse
  | inviteNotFound
  | inviteAlreadyAccepted
  | inviteRevoked
  | inviteExpired
  /-- The digest of the token is in the table already. -/
  | tokenHashTaken
  deriving DecidableEq

/-- What is drawn for one action: the bytes of a token, or the salt of a password. -/
structure Draw where
  bytes : Vector Byte 32
  salt : Text

/-- A piece of a call. -/
abbrev Action := Prog World Draw

/-- Whether a text is an address: one `@`, no white space, and a dot inside what is behind it. -/
def isEmail (email : Text) : Bool :=
  let user := email.takeWhile (· ≠ '@')
  let domain := (email.dropWhile (· ≠ '@')).drop 1
  '@' ∈ email ∧ user ≠ [] ∧ '@' ∉ domain ∧ email.all (fun c => !BigInt.isSpace c) ∧
    '.' ∈ (domain.drop 1).dropLast

/-- The digest of a token. -/
def hashToken (env : Env) (token : Text) : Text := env.sha256 token

/-- An invitation that was neither accepted nor revoked. -/
def OperatorUserInvite.pending (x : OperatorUserInvite) : Bool :=
  x.acceptedAt = none ∧ x.revokedAt = none

/-- What an invitation is made with. -/
structure CreateInviteArgs where
  operatorId : OperatorId
  email : Text
  role : InviteRole
  invitedByEmail : Text
  ttlMs : Option Millis

/-- What is handed out of an invitation. -/
structure CreatedInvite where
  inviteId : Nat
  token : Text
  expiresAt : Text

/-- An invitation after those of an operator and an address that were pending were revoked. -/
def OperatorUserInvite.revokedFor (operatorId : OperatorId) (email : Text) (revokedAt : Millis)
    (x : OperatorUserInvite) : OperatorUserInvite :=
  if x.operatorId = operatorId ∧ x.email = email ∧ x.pending then
    { x with revokedAt := some revokedAt }
  else x

/-- The revocation of the invitations of an operator and an address that are pending. -/
def World.revokePrior (w : World) (operatorId : OperatorId) (email : Text) (revokedAt : Millis) :
    World :=
  { w with invites := w.invites.map (OperatorUserInvite.revokedFor operatorId email revokedAt) }

/-- The invitations that a new one of number `inviteId` replaces. -/
def World.superseded (w : World) (inviteId : Nat) (operatorId : OperatorId) (email : Text) :
    List Nat :=
  (List.range inviteId).filter fun n =>
    w.invites[n]?.any fun x => x.operatorId = operatorId ∧ x.email = email

/-- **A new invitation.** The time of a revocation is that of the request to the database. -/
def createInvite (env : Env) (args : CreateInviteArgs) :
    Action (Except InviteError CreatedInvite) := do
  let email := BigInt.trim (env.toLowerCase args.email)
  if ¬ isEmail email then pure (.error .invalidEmail)
  else do
    let existingUser ← Prog.query fun w => w.users.any fun u => u.email = email
    if existingUser then pure (.error .emailAlreadyInUse)
    else do
      let revokedAt ← Prog.query World.now
      Prog.modify fun w => w.revokePrior args.operatorId email revokedAt
      let (token, expiresAt) ← Prog.lift fun _ draw w =>
        some ((toBase64Url draw.bytes.toList, w.now + args.ttlMs.getD DEFAULT_TTL_MS), w)
      let inviteId ← Prog.request fun _ w =>
        if w.invites.any fun x => x.tokenHash = hashToken env token then (none, w)
        else (some w.invites.length, { w with
          invites := w.invites ++ [{
            operatorId := args.operatorId
            email := email
            role := args.role
            tokenHash := hashToken env token
            invitedByEmail := args.invitedByEmail
            expiresAt := expiresAt
            acceptedAt := none
            revokedAt := none }] })
      match inviteId with
      | none => pure (.error .tokenHashTaken)
      | some inviteId => do
          Prog.modify fun w =>
            { w with dead := w.dead ++ w.superseded inviteId args.operatorId email }
          pure (.ok ⟨inviteId, token, toISOString expiresAt⟩)

/-- What an invitation is accepted with. -/
structure AcceptInviteArgs where
  token : Text
  displayName : Text
  password : Text

/-- What is said of a new user. -/
structure AcceptedInvite where
  userId : Nat
  operatorId : OperatorId
  role : InviteRole
  email : Text

/-- The transaction that makes a user of invitation `id`; it fails where its address is in use. -/
def World.enroll (w : World) (id : Nat) (invite : OperatorUserInvite) (passwordHash displayName : Text) :
    Option World :=
  if w.users.any fun u => u.email = invite.email then none
  else some { w with
    users := w.users ++ [{
      operatorId := invite.operatorId
      email := invite.email
      passwordHash := passwordHash
      role := invite.role
      displayName := displayName.take 100 }]
    invites := w.invites.modify id fun x => { x with acceptedAt := some w.now }
    accepts := w.accepts ++ [(id, decide (id ∈ w.dead))] }

/-- **The acceptance of an invitation**: it is checked, the password is hashed, and then a transaction
makes the user. -/
def acceptInvite (env : Env) (args : AcceptInviteArgs) :
    Action (Except InviteError AcceptedInvite) := do
  let found ← Prog.query fun w =>
    (w.invites.findIdx? fun x => x.tokenHash = hashToken env args.token).bind fun id =>
      w.invites[id]?.map fun invite => (id, invite)
  match found with
  | none => pure (.error .inviteNotFound)
  | some (id, invite) =>
      if invite.acceptedAt.isSome then pure (.error .inviteAlreadyAccepted)
      else if invite.revokedAt.isSome then pure (.error .inviteRevoked)
      else do
        let now ← Prog.query World.now
        if invite.expiresAt < now then pure (.error .inviteExpired)
        else do
          let passwordHash ← Prog.lift fun _ draw w =>
            some (env.bcryptHash draw.salt args.password, w)
          Prog.request fun _ w =>
            match w.enroll id invite passwordHash args.displayName with
            | none => (.error .emailAlreadyInUse, w)
            | some w' => (.ok ⟨w.users.length, invite.operatorId, invite.role, invite.email⟩, w')

/-- A revocation is confirmed: an invitation that was not accepted is dead. -/
def World.confirm (w : World) (inviteId : Nat) : World :=
  if w.invites[inviteId]?.any fun x => x.acceptedAt = none then { w with dead := w.dead ++ [inviteId] }
  else w

/-- **The revocation of an invitation.** -/
def revokeInvite (operatorId : OperatorId) (inviteId : Nat) : Action Bool := do
  let inv ← Prog.query fun w => w.invites[inviteId]?
  match inv with
  | none => pure false
  | some inv =>
      if inv.operatorId ≠ operatorId then pure false
      else do
        if inv.acceptedAt.isSome ∨ inv.revokedAt.isSome then pure ()
        else
          Prog.modify fun w => { w with
            invites := w.invites.modify inviteId fun x => { x with revokedAt := some w.now } }
        Prog.modify fun w => w.confirm inviteId
        pure true

/-! ## The system -/

/-- What can be called. -/
inductive Call
  | create (args : CreateInviteArgs)
  | accept (args : AcceptInviteArgs)
  | revoke (operatorId : OperatorId) (inviteId : Nat)

/-- The program of a call. -/
def Call.code (env : Env) : Call → Action Unit
  | .create args => do
      let _ ← createInvite env args
      pure ()
  | .accept args => do
      let _ ← acceptInvite env args
      pure ()
  | .revoke operatorId inviteId => do
      let _ ← revokeInvite operatorId inviteId
      pure ()

/-- **The server, as far as invitations go**; outside time passes. -/
def inviteServer (env : Env) : System World Draw Call Millis where
  code := Call.code env
  admits _ _ := true
  env ms w := some { w with now := w.now + ms }
  dies _ _ := false

/-- A state of the server. -/
abbrev State := Pool World Draw Call

/-- An event of the server. -/
abbrev Happening := Event Draw Call Millis

/-- A server without invitations. -/
def initial (now : Millis) (users : List OperatorUser) : State := ⟨⟨now, [], users, [], []⟩, []⟩

end YantraRgs.UserInvites
