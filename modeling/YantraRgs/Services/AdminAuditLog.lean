import YantraRgs.Services.JsonPaths

/-! # The audit trail of administrators

Every write to the platform leaves a row: who did what to which target, with the body of the request.
Secrets are taken out of the body before.

* **`scrub`** — a body without its secrets.
* **`inferTarget`** — what a path is about.
* **`adminAudit`** — the row of a request, if it leaves one. -/

namespace YantraRgs.AdminAuditLog

/-- The names of fields that hold secrets. -/
def SENSITIVE_FIELDS : List String :=
  ["password", "passwordHash", "secret", "token", "privateJwk", "cipher", "cipherBlob", "mfaCode",
    "newPassword", "oldPassword"]

/-- What stands for a secret. -/
def redacted : Value := .string "[REDACTED]"

mutual

/-- **A body without its secrets.** -/
def scrub : Value → Value
  | .array vs => .array (scrubElements vs)
  | .object es => .object (scrubEntries es)
  -- a date has no fields of its own
  | .date _ => .object []
  | v => v

/-- The elements of an array. -/
def scrubElements : List Value → List Value
  | [] => []
  | v :: vs => scrub v :: scrubElements vs

/-- The fields of an object. The name `__proto__` sets no field. -/
def scrubEntries : List (String × Value) → List (String × Value)
  | [] => []
  | (k, v) :: es =>
      if k = "__proto__" then scrubEntries es
      else if k ∈ SENSITIVE_FIELDS then (k, redacted) :: scrubEntries es
      else (k, scrub v) :: scrubEntries es

end

/-- The collections that paths are about. -/
def collections : List Text :=
  ["operators", "certificates", "credentials", "game-configs", "webhooks", "signing-keys", "invites",
    "users"].map String.toList

/-- The first collection that is followed by an identifier, with the identifier. -/
def targetIn : List Text → Option (Text × Text)
  | collection :: id :: rest =>
      if collection ∈ collections then some (collection.map fun c => if c = '-' then '_' else c, id)
      else targetIn (id :: rest)
  | _ => none

/-- A path without its query. -/
def withoutQuery (url : Text) : Text := url.takeWhile (· ≠ '?')

/-- **What a path is about**: a type and an identifier. -/
def inferTarget (path : Text) : Option (Text × Text) :=
  targetIn (((withoutQuery path).splitOn '/').filter (· ≠ []))

/-- A user of a portal. -/
structure PortalUser where
  id : String
  email : String

/-- A request, with what became of it. -/
structure AdminRequest where
  method : Text
  originalUrl : Text
  body : Option Value
  portalUser : Option PortalUser
  role : Option String
  statusCode : Nat
  latencyMs : Nat

/-- A row of the audit trail. -/
structure AdminAuditEntry where
  actorUserId : Option String
  actorEmail : String
  actorRole : String
  method : Text
  path : Text
  targetType : Option Text
  targetId : Option Text
  bodySummary : Option Value
  responseStatus : Nat
  latencyMs : Nat

/-- The methods that write. -/
def writeMethods : List Text := ["POST", "PATCH", "PUT", "DELETE"].map String.toList

/-- Whether a body counts as given. -/
def truthy : Value → Bool
  | .null => false
  | .bool b => b
  | .number n => n.text ≠ ['0']
  | .string s => s ≠ ""
  | .bigint n => n ≠ 0
  | _ => true

/-- **The row of a request**, if it leaves one. -/
def adminAudit (req : AdminRequest) : Option AdminAuditEntry :=
  if req.method ∉ writeMethods then none
  else
    let path := withoutQuery req.originalUrl
    let target := inferTarget path
    some {
      actorUserId := req.portalUser.map PortalUser.id
      actorEmail := (req.portalUser.map PortalUser.email).getD "anonymous"
      actorRole := req.role.getD "anonymous"
      method := req.method
      path := path.take 256
      targetType := target.map Prod.fst
      targetId := target.map Prod.snd
      bodySummary := (req.body.filter truthy).map scrub
      responseStatus := req.statusCode
      latencyMs := req.latencyMs }

end YantraRgs.AdminAuditLog
