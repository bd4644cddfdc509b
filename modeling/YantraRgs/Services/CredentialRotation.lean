import YantraRgs.Await.Pool
import YantraRgs.Db.Table
import YantraRgs.Wallet.Types
import Mathlib.Data.List.Nodup

/-! # Credentials: rotation, revocation, and the two sides that use them

An operator has credentials of two types: with the one it signs the requests it sends, with the other
the server signs the wallet calls it makes. A rotation adds a credential and gives the one it replaces
an end date, a grace window from now; a revocation ends a credential at once. The middleware looks a
credential up for every request. The adapter of an engine is built once, when the engine is made, and
keeps its credential; the job runner builds one for every attempt.

* **`Credentials`** — the table, in which no key id appears twice.
* **`operatorAuth`** — what the middleware checks before the signature.
* **`rotateCredential`**, **`revokeCredentialImmediately`** — the two changes.
* **`buildAdapter`**, **`sign`** — where outbound requests get their credential.
* **`credentialServer`** — all of it as a system. -/

namespace YantraRgs.CredentialRotation

open Await

/-! ## The table -/

/-- What a credential is for. -/
inductive CredentialType
  /-- The operator signs with it. -/
  | apiKeyInbound
  /-- The server signs wallet calls with it. -/
  | walletHmacOutbound
  deriving DecidableEq

/-- A credential. -/
structure Credential where
  operatorId : OperatorId
  type : CredentialType
  kid : String
  notAfter : Option Millis
  revokedAt : Option Millis
  createdAt : Millis
  label : String
  deriving DecidableEq

/-- The credentials of all operators; a key id is unique. -/
structure Credentials where
  rows : List Credential
  kids : (rows.map Credential.kid).Nodup

/-- A new credential, unless its key id is taken. -/
def Credentials.insert (t : Credentials) (c : Credential) : Option Credentials :=
  if h : c.kid ∈ t.rows.map Credential.kid then none
  else some ⟨t.rows ++ [c], by
    rw [List.map_append, List.map_singleton]
    exact List.nodup_append.mpr ⟨t.kids, List.nodup_singleton _, by
      rintro a ha b hb rfl
      exact h (List.mem_singleton.mp hb ▸ ha)⟩⟩

/-- The end date of credential `n`. -/
def Credentials.retire (t : Credentials) (n : Nat) (retiresAt : Millis) : Credentials where
  rows := t.rows.modify n fun c => { c with notAfter := some retiresAt }
  kids := by
    rw [Table.map_modify_of_eq (g := Credential.kid) (by intro r; rfl)]
    exact t.kids

/-- The revocation of credential `n`. -/
def Credentials.revoke (t : Credentials) (n : Nat) (now : Millis) : Credentials where
  rows := t.rows.modify n fun c => { c with revokedAt := some now, notAfter := some now }
  kids := by
    rw [Table.map_modify_of_eq (g := Credential.kid) (by intro r; rfl)]
    exact t.kids

/-- The rows that a query for the newest row that satisfies `p` may hand out. -/
def Credentials.newest (t : Credentials) (p : Credential → Bool) : List Nat :=
  ((Table.select p t.rows).filter fun x =>
    (Table.select p t.rows).all fun y => y.2.createdAt ≤ x.2.createdAt).map Prod.fst

/-- Whether such a query may hand out `found`. -/
def Credentials.finds (t : Credentials) (p : Credential → Bool) : Option Nat → Bool
  | some n => n ∈ t.newest p
  | none => t.newest p = []

/-- The status of an operator. -/
inductive OperatorStatus
  | active
  | paused
  | terminated
  deriving DecidableEq

/-- An operator. -/
structure Operator where
  slug : String
  status : OperatorStatus
  walletCallbackUrl : Option String

/-- An adapter that signs outbound requests with credential `credential`. -/
structure HttpWalletAdapter where
  credential : Nat
  deriving DecidableEq

/-- A request that was signed. -/
structure Signed where
  credential : Nat
  at' : Millis
  deriving DecidableEq

/-- An engine with its adapter; none is the internal wallet, which signs nothing. -/
structure Engine where
  adapter : Option HttpWalletAdapter
  alive : Bool

/-- The world of credentials. -/
structure World where
  now : Millis
  operators : List Operator
  credentials : Credentials
  engines : List Engine
  signed : List Signed
  /-- The adapters that calls hold, with the number of the call. -/
  held : List (Nat × HttpWalletAdapter)

/-! ## The middleware -/

/-- Why the middleware turns a request away. -/
inductive AuthError
  | unknownOrRevokedKid
  | credentialExpired
  | operatorTerminated
  deriving DecidableEq

/-- What the middleware makes of a credential that it found, before it checks the signature. -/
def Credential.refused (operators : List Operator) (now : Millis) (c : Credential) :
    Option AuthError :=
  if c.type ≠ .apiKeyInbound ∨ c.revokedAt.isSome then some .unknownOrRevokedKid
  else if c.notAfter.any (· < now) then some .credentialExpired
  else if operators[c.operatorId]?.all fun o => o.status = .terminated then
    some .operatorTerminated
  else none

/-- **The middleware**: the credential under a key id, when it is acceptable at a time. -/
def World.operatorAuth (w : World) (kid : String) (now : Millis) : Except AuthError Credential :=
  match w.credentials.rows.find? fun c => c.kid = kid with
  | none => .error .unknownOrRevokedKid
  | some c =>
      match c.refused w.operators now with
      | some error => .error error
      | none => .ok c

/-! ## Rotation and revocation -/

/-- What a rotation is asked for. -/
structure RotateCredentialInput where
  operatorId : OperatorId
  type : CredentialType
  actorEmail : String
  label : Option String
  graceMs : Option Millis
  kidLabel : Option String

/-- The grace window of a rotation. -/
def RotateCredentialInput.grace (input : RotateCredentialInput) : Millis :=
  input.graceMs.getD (60 * 60000)

/-- What the outside chooses for one action: which row a query hands out, and what is drawn. -/
structure Choice where
  found : Option Nat
  suffix : String
  deriving DecidableEq

/-- The credentials that a rotation replaces one of. -/
def Credential.active (operatorId : OperatorId) (type : CredentialType) (now : Millis)
    (c : Credential) : Bool :=
  c.operatorId = operatorId ∧ c.type = type ∧ c.revokedAt = none ∧ c.notAfter.all (now < ·)

namespace World

variable (w : World)

/-- The key id of a new credential. -/
def newKid (input : RotateCredentialInput) (suffix : String) : String :=
  let slug := (w.operators[input.operatorId]?.map Operator.slug).getD "op"
  let kidPrefix := match input.type with
    | .apiKeyInbound => "kid"
    | .walletHmacOutbound => "out"
  kidPrefix ++ "_" ++ slug ++ "_" ++ input.kidLabel.getD suffix

/-- The credential that a rotation adds. -/
def newCredential (input : RotateCredentialInput) (suffix : String) : Credential where
  operatorId := input.operatorId
  type := input.type
  kid := w.newKid input suffix
  notAfter := none
  revokedAt := none
  createdAt := w.now
  label := input.label.getD ("rotated by " ++ input.actorEmail)

/-- The table after a rotation that replaces `previous`; none when the key id is taken. -/
def rotated (input : RotateCredentialInput) (previous : Option Nat) (suffix : String) :
    Option Credentials :=
  (w.credentials.insert (w.newCredential input suffix)).map fun t =>
    match previous with
    | some n => t.retire n (w.now + input.grace)
    | none => t

end World

/-- A piece of a call. -/
abbrev Action := Prog World Choice

/-- **A rotation**, one transaction: it finds the newest active credential, adds a new one, and gives
the old one its end date. A key id that is taken undoes it. -/
def rotateCredential (input : RotateCredentialInput) : Action Unit :=
  Prog.lift fun _ c w =>
    if w.credentials.finds (Credential.active input.operatorId input.type w.now) c.found then
      match w.rotated input c.found c.suffix with
      | some credentials => some ((), { w with credentials })
      | none => some ((), w)
    else none

/-- **A revocation.** -/
def revokeCredentialImmediately (id : Nat) : Action Unit := do
  let existing ← Prog.query fun w => w.credentials.rows[id]?
  match existing with
  | none => pure ()
  | some existing =>
      if existing.revokedAt.isSome then pure ()
      else Prog.modify fun w => { w with credentials := w.credentials.revoke id w.now }

/-! ## Outbound requests -/

/-- The credentials that an adapter may be built from. -/
def Credential.signs (operatorId : OperatorId) (c : Credential) : Bool :=
  c.operatorId = operatorId ∧ c.type = .walletHmacOutbound ∧ c.revokedAt = none

/-- Build the adapter of an operator, from its newest credential that is not revoked. -/
def buildAdapter (operatorId : OperatorId) : Action (Option HttpWalletAdapter) := do
  let operator ← Prog.query fun w => w.operators[operatorId]?
  match operator with
  | none => pure none
  | some operator =>
      Prog.lift fun i c w =>
        if w.credentials.finds (Credential.signs operatorId) c.found then
          match c.found, operator.walletCallbackUrl with
          | some n, some _ => some (some ⟨n⟩, { w with held := w.held ++ [(i, ⟨n⟩)] })
          | _, _ => some (none, w)
        else none

/-- Sign a request at the present time. -/
def sign (adapter : HttpWalletAdapter) : Action Unit :=
  Prog.request fun i w => ((), { w with
    signed := w.signed ++ [⟨adapter.credential, w.now⟩]
    held := w.held.filter fun x => x.1 ≠ i })

/-- Make an engine, which keeps its adapter. The checks before that do not look at credentials. -/
def ensure (operatorId : OperatorId) : Action Unit := do
  let adapter ← buildAdapter operatorId
  Prog.request fun i w => ((), { w with
    engines := w.engines ++ [⟨adapter, true⟩]
    held := w.held.filter fun x => x.1 ≠ i })

/-- A wallet call of engine `n`: it is journalled, and then signed and sent. -/
def walletCall (n : Nat) : Action Unit := do
  let adapter ← Prog.request fun i w =>
    let adapter := (w.engines[n]?.bind fun engine => if engine.alive then engine.adapter else none)
    (adapter, { w with held := w.held ++ (adapter.toList.map fun a => (i, a)) })
  match adapter with
  | none => pure ()
  | some adapter => sign adapter

/-- An attempt of a queued wallet call of an operator: without an adapter it is put off. -/
def runJob (operatorId : OperatorId) : Action Unit := do
  let adapter ← buildAdapter operatorId
  match adapter with
  | none => pure ()
  | some adapter => sign adapter

/-! ## The system -/

/-- What can be called. -/
inductive Call
  | rotate (input : RotateCredentialInput)
  | revoke (id : Nat)
  | ensure (operatorId : OperatorId)
  | walletCall (n : Nat)
  | runJob (operatorId : OperatorId)

/-- The program of a call. -/
def Call.code : Call → Action Unit
  | .rotate input => rotateCredential input
  | .revoke id => revokeCredentialImmediately id
  | .ensure operatorId => CredentialRotation.ensure operatorId
  | .walletCall n => CredentialRotation.walletCall n
  | .runJob operatorId => CredentialRotation.runJob operatorId

/-- What happens outside. -/
inductive Outside
  /-- Time passes. -/
  | elapse (ms : Millis)
  /-- Engine `n` is gone: its loop has ended, and nothing calls it any more. -/
  | close (n : Nat)

/-- What happens to the world from outside. -/
def World.outside (w : World) : Outside → World
  | .elapse ms => { w with now := w.now + ms }
  | .close n => { w with engines := w.engines.modify n fun engine => { engine with alive := false } }

/-- **The server, as far as credentials go.** -/
def credentialServer : System World Choice Call Outside where
  code := Call.code
  admits _ _ := true
  env x w := some (w.outside x)
  dies _ _ := false

/-- A state of the server. -/
abbrev State := Pool World Choice Call

/-- An event of the server. -/
abbrev Happening := Event Choice Call Outside

/-- A server with the given operators and credentials, and no engine. -/
def initial (now : Millis) (operators : List Operator) (credentials : Credentials) : State :=
  ⟨⟨now, operators, credentials, [], [], []⟩, []⟩

end YantraRgs.CredentialRotation
