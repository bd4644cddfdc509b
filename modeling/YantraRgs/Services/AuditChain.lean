import YantraRgs.Audit.HashChain
import YantraRgs.Db.Schema
import YantraRgs.Services.CanonicalJson

/-! # The audit chain

Every row of a chained stream is hashed together with the hash of the row before it. Once a day the
tip of each operator's chain is written into an anchor, and an anchor is verified by walking its day
again.

* **`WalletCallRow`**, **`RoundRow`** — the rows of the two streams, with every hashed column.
* **`Stream`** — what the chain reads of a row; the two streams are `walletCalls` and `rounds`.
* **`hashRow`**, **`latestTip`**, **`backfillChain`**, **`summariseDay`**, **`anchorDay`**,
  **`verifyAnchor`** — the service.

Rows are found by `found`: the rows that satisfy a condition, in the order of their time stamps and
identifiers. -/

namespace YantraRgs.AuditChain

/-! ## Rows -/

/-- The direction of a wallet call. -/
inductive WalletDirection
  | inbound
  | outbound
  deriving DecidableEq

/-- The endpoint of a wallet call. -/
inductive Endpoint
  | balance
  | bet
  | win
  | rollback
  | endRound
  deriving DecidableEq

/-- A row of the journal of wallet calls. -/
structure WalletCallRow where
  id : String
  operatorId : String
  direction : WalletDirection
  endpoint : Endpoint
  requestUuid : String
  transactionUuid : Option String
  referenceTransactionUuid : Option String
  sessionId : Option String
  roundId : Option String
  playerRef : Option String
  amountMicro : Option Int
  currency : Option String
  requestBody : Value
  responseStatus : Option String
  responseBody : Option Value
  httpStatus : Option Int
  latencyMs : Option Int
  attempt : Int
  succeeded : Bool
  createdAt : Millis
  prevRowHash : Option Text
  rowHash : Option Text

/-- A round. -/
structure RoundRow where
  id : String
  operatorId : String
  sessionId : String
  gameCode : String
  currency : String
  nonce : Int
  state : RoundState
  outcomeType : Option String
  outcomeData : Option Value
  gameConfigVersion : Option String
  serverSeedHash : String
  clientSeed : String
  rngVersion : String
  buildHash : Option String
  totalBetsMicro : Int
  totalPayoutsMicro : Int
  startedAt : Option Millis
  rolledAt : Option Millis
  settledAt : Option Millis
  voidedAt : Option Millis
  startedAtMonoNs : Option Int
  prevRowHash : Option Text
  rowHash : Option Text

/-- The names of the directions. -/
def WalletDirection.name : WalletDirection → String
  | .inbound => "INBOUND"
  | .outbound => "OUTBOUND"

/-- The names of the endpoints. -/
def Endpoint.name : Endpoint → String
  | .balance => "BALANCE"
  | .bet => "BET"
  | .win => "WIN"
  | .rollback => "ROLLBACK"
  | .endRound => "END_ROUND"

/-- The names of the states of a round. -/
def stateName : RoundState → String
  | .pending => "PENDING"
  | .bettingOpen => "BETTING_OPEN"
  | .rolling => "ROLLING"
  | .result => "RESULT"
  | .settled => "SETTLED"
  | .voided => "VOIDED"

/-! ## What is hashed of a row -/

/-- A column that may be absent. -/
def nullable {α : Type} (f : α → Value) : Option α → Value
  | none => .null
  | some x => f x

/-- An integer column. -/
def integer (n : Int) : Value := .number (.ofInt n)

/-- **The hashed columns of a wallet call.** -/
def walletCallHashInput (row : WalletCallRow) : List (String × Value) :=
  [("stream", .string "wallet_call"),
    ("id", .string row.id),
    ("operatorId", .string row.operatorId),
    ("direction", .string row.direction.name),
    ("endpoint", .string row.endpoint.name),
    ("requestUuid", .string row.requestUuid),
    ("transactionUuid", nullable .string row.transactionUuid),
    ("referenceTransactionUuid", nullable .string row.referenceTransactionUuid),
    ("sessionId", nullable .string row.sessionId),
    ("roundId", nullable .string row.roundId),
    ("playerRef", nullable .string row.playerRef),
    ("amountMicro", nullable .bigint row.amountMicro),
    ("currency", nullable .string row.currency),
    ("requestBody", row.requestBody),
    ("responseStatus", nullable .string row.responseStatus),
    ("responseBody", nullable id row.responseBody),
    ("httpStatus", nullable integer row.httpStatus),
    ("latencyMs", nullable integer row.latencyMs),
    ("attempt", integer row.attempt),
    ("succeeded", .bool row.succeeded),
    ("createdAt", .date row.createdAt)]

/-- **The hashed columns of a round.** -/
def roundHashInput (row : RoundRow) : List (String × Value) :=
  [("stream", .string "round"),
    ("id", .string row.id),
    ("operatorId", .string row.operatorId),
    ("sessionId", .string row.sessionId),
    ("gameCode", .string row.gameCode),
    ("currency", .string row.currency),
    ("nonce", integer row.nonce),
    ("state", .string (stateName row.state)),
    ("outcomeType", nullable .string row.outcomeType),
    ("outcomeData", nullable id row.outcomeData),
    ("gameConfigVersion", nullable .string row.gameConfigVersion),
    ("serverSeedHash", .string row.serverSeedHash),
    ("clientSeed", .string row.clientSeed),
    ("rngVersion", .string row.rngVersion),
    ("buildHash", nullable .string row.buildHash),
    ("totalBetsMicro", .bigint row.totalBetsMicro),
    ("totalPayoutsMicro", .bigint row.totalPayoutsMicro),
    ("startedAt", nullable .date row.startedAt),
    ("rolledAt", nullable .date row.rolledAt),
    ("settledAt", nullable .date row.settledAt),
    ("voidedAt", nullable .date row.voidedAt),
    ("startedAtMonoNs", nullable .bigint row.startedAtMonoNs)]

/-! ## Streams -/

/-- **What the chain reads of the rows of a stream**, and how it writes their hashes. -/
structure Stream (R : Type) where
  name : String
  id : R → String
  operatorId : R → String
  /-- When the row was created. -/
  stamp : R → Option Millis
  hashInput : R → List (String × Value)
  prevRowHash : R → Option Text
  rowHash : R → Option Text
  /-- The row with its two hash columns written. -/
  link : R → Option Text → Text → R
  id_link : ∀ r p h, id (link r p h) = id r
  operatorId_link : ∀ r p h, operatorId (link r p h) = operatorId r
  stamp_link : ∀ r p h, stamp (link r p h) = stamp r
  hashInput_link : ∀ r p h, hashInput (link r p h) = hashInput r
  rowHash_link : ∀ r p h, rowHash (link r p h) = some h
  link_link : ∀ r p h q d, link (link r p h) q d = link r q d
  /-- The names of the hashed columns. -/
  keys : List String
  keys_eq : ∀ r, (hashInput r).map Prod.fst = keys
  keys_nodup : keys.Nodup

attribute [simp] Stream.id_link Stream.operatorId_link Stream.stamp_link Stream.hashInput_link
  Stream.rowHash_link Stream.link_link

/-- The stream of the wallet calls. -/
def walletCalls : Stream WalletCallRow where
  name := "wallet_call"
  id := WalletCallRow.id
  operatorId := WalletCallRow.operatorId
  stamp row := some row.createdAt
  hashInput := walletCallHashInput
  prevRowHash := WalletCallRow.prevRowHash
  rowHash := WalletCallRow.rowHash
  link row prev hash := { row with prevRowHash := prev, rowHash := some hash }
  id_link _ _ _ := rfl
  operatorId_link _ _ _ := rfl
  stamp_link _ _ _ := rfl
  hashInput_link _ _ _ := rfl
  rowHash_link _ _ _ := rfl
  link_link _ _ _ _ _ := rfl
  keys := ["stream", "id", "operatorId", "direction", "endpoint", "requestUuid", "transactionUuid",
    "referenceTransactionUuid", "sessionId", "roundId", "playerRef", "amountMicro", "currency",
    "requestBody", "responseStatus", "responseBody", "httpStatus", "latencyMs", "attempt",
    "succeeded", "createdAt"]
  keys_eq _ := rfl
  keys_nodup := by decide

/-- The stream of the rounds. -/
def rounds : Stream RoundRow where
  name := "round"
  id := RoundRow.id
  operatorId := RoundRow.operatorId
  stamp := RoundRow.startedAt
  hashInput := roundHashInput
  prevRowHash := RoundRow.prevRowHash
  rowHash := RoundRow.rowHash
  link row prev hash := { row with prevRowHash := prev, rowHash := some hash }
  id_link _ _ _ := rfl
  operatorId_link _ _ _ := rfl
  stamp_link _ _ _ := rfl
  hashInput_link _ _ _ := rfl
  rowHash_link _ _ _ := rfl
  link_link _ _ _ _ _ := rfl
  keys := ["stream", "id", "operatorId", "sessionId", "gameCode", "currency", "nonce", "state",
    "outcomeType", "outcomeData", "gameConfigVersion", "serverSeedHash", "clientSeed",
    "rngVersion", "buildHash", "totalBetsMicro", "totalPayoutsMicro", "startedAt", "rolledAt",
    "settledAt", "voidedAt", "startedAtMonoNs"]
  keys_eq _ := rfl
  keys_nodup := by decide

/-! ## Hashing -/

/-- What the service takes from elsewhere: the digests, and the secrets of the environment. -/
structure Env where
  sha256 : Text → Text
  hmacSha256 : String → Text → Text
  auditAnchorSecret : Option String
  sessionJwtSecret : Option String

/-- **The hash of a row.** -/
def hashRow (env : Env) (prevHash : Option Text) (row : List (String × Value)) : Text :=
  env.sha256 (prevHash.getD [] ++ '\n' :: canonicalJson (.object row))

/-- The secret that anchors are signed with. -/
def ensureSecret (env : Env) : Except String String :=
  match env.auditAnchorSecret.filter (16 ≤ ·.length) with
  | some v => .ok v
  | none =>
      match env.sessionJwtSecret.filter (16 ≤ ·.length) with
      | some fallback => .ok fallback
      | none =>
          .error "AUDIT_ANCHOR_SECRET must be set (>= 16 chars) for audit chain signing"

/-- The signature of a manifest. -/
def signManifest (env : Env) (body : Text) : Except String Text :=
  (ensureSecret env).map fun secret => env.hmacSha256 secret body

/-! ## Queries -/

section Queries

variable {R : Type} (S : Stream R)

/-- The order of a stream: by time stamp, rows without one last, and then by identifier. -/
def Stream.before (a b : R) : Bool :=
  match S.stamp a, S.stamp b with
  | some s, some t => s < t || (s = t && S.id a ≤ S.id b)
  | some _, none => true
  | none, some _ => false
  | none, none => S.id a ≤ S.id b

/-- The rows that satisfy a condition, in the order of the stream. -/
def Stream.found (rows : List R) (p : R → Bool) : List R :=
  (rows.insertionSort fun a b => S.before a b = true).filter p

/-- The rows of an operator that were created before an instant. -/
def Stream.earlier (operatorId : String) (start : Millis) (r : R) : Bool :=
  S.operatorId r = operatorId && (S.stamp r).any (· < start)

/-- The rows of an operator that were created within a day. -/
def Stream.within (operatorId : String) (dayStart dayEnd : Millis) (r : R) : Bool :=
  S.operatorId r = operatorId && (S.stamp r).any fun t => dayStart ≤ t && t < dayEnd

/-- The rows of an operator that carry a hash. -/
def Stream.hashed (r : R) : Bool := (S.rowHash r).isSome

/-- The row with the given identifier, written. -/
def Stream.update (rows : List R) (id : String) (f : R → R) : List R :=
  rows.map fun r => if S.id r = id then f r else r

/-- The hash of the latest hashed row of an operator. -/
def latestTip (rows : List R) (operatorId : String) : Option Text :=
  ((S.found rows fun r => S.operatorId r = operatorId && S.hashed r).getLast?).bind S.rowHash

end Queries

/-- The tip of an operator's wallet calls. -/
def latestWalletCallTip (rows : List WalletCallRow) (operatorId : String) : Option Text :=
  latestTip walletCalls rows operatorId

/-- The tip of an operator's rounds. -/
def latestRoundTip (rows : List RoundRow) (operatorId : String) : Option Text :=
  latestTip rounds rows operatorId

/-! ## Backfill -/

section Backfill

variable {R : Type} (env : Env) (S : Stream R)

/-- The rows of one batch are hashed, one after the other. -/
def backfillBatch : Option Text → List R → List R → List R × Option Text
  | prev, [], rows => (rows, prev)
  | prev, row :: batch, rows =>
      let hash := hashRow env prev (S.hashInput row)
      backfillBatch (some hash) batch (S.update rows (S.id row) fun r => S.link r prev hash)

/-- Batches of at most five hundred unhashed rows are hashed until there are none; `n` bounds the
number of batches. -/
def backfillLoop (operatorId : String) : Nat → Option Text → List R → Nat → List R × Nat
  | 0, _, rows, total => (rows, total)
  | n + 1, prev, rows, total =>
      let batch :=
        (S.found rows fun r => S.operatorId r = operatorId && !S.hashed r).take 500
      if batch.isEmpty then (rows, total)
      else
        let done := backfillBatch env S prev batch rows
        backfillLoop operatorId n done.2 done.1 (total + batch.length)

/-- **The unhashed rows of an operator join the chain.** -/
def backfillChain (rows : List R) (operatorId : String) : List R × Nat :=
  backfillLoop env S operatorId (rows.length + 1) (latestTip S rows operatorId) rows 0

end Backfill

/-- The unhashed wallet calls of an operator join the chain. -/
def backfillWalletCallChain (env : Env) (rows : List WalletCallRow) (operatorId : String) :
    List WalletCallRow × Nat :=
  backfillChain env walletCalls rows operatorId

/-- The unhashed rounds of an operator join the chain. -/
def backfillRoundChain (env : Env) (rows : List RoundRow) (operatorId : String) :
    List RoundRow × Nat :=
  backfillChain env rounds rows operatorId

/-! ## Anchors -/

/-- What an anchor says of a day. -/
structure AnchorSummary where
  stream : String
  operatorId : String
  periodDate : String
  firstRowId : Option String
  lastRowId : Option String
  rowCount : Nat
  tipHash : Text
  deriving DecidableEq

/-- A row of the table of anchors. -/
structure AuditAnchor where
  periodDate : Millis
  streamName : String
  operatorId : Option String
  firstRowId : Option String
  lastRowId : Option String
  rowCount : Nat
  tipHash : Text
  manifest : AnchorSummary
  signature : Text
  deriving DecidableEq

/-- The tables the chain is about. -/
structure Db where
  operators : List String
  walletCalls : List WalletCallRow
  rounds : List RoundRow
  auditAnchors : List AuditAnchor

/-- The length of a day. -/
def dayMs : Millis := 86400000

/-- The day an instant lies in starts at midnight. -/
def startOfDay (date : Millis) : Millis := date / dayMs * dayMs

/-- The date of an instant, as a text. -/
def dateText (t : Millis) : String := String.ofList ((toISOString t).take 10)

section Anchors

variable {R : Type} (env : Env) (S : Stream R)

/-- The rows of a day are hashed again, and stored hashes that differ are written anew. -/
def repair : Option Text → List R → List R → List R × Option Text
  | prev, [], rows => (rows, prev)
  | prev, r :: day, rows =>
      let computed := hashRow env prev (S.hashInput r)
      let rows' :=
        if S.rowHash r ≠ some computed ∨ S.prevRowHash r ≠ prev then
          S.update rows (S.id r) fun x => S.link x prev computed
        else rows
      repair (some computed) day rows'

/-- The hash that the chain of a day starts from: that of the last row created before it. -/
def beforeTip (rows : List R) (operatorId : String) (dayStart : Millis) : Option Text :=
  ((S.found rows (S.earlier operatorId dayStart)).getLast?).bind S.rowHash

/-- **The summary of an operator's day**, and the rows with their hashes repaired. -/
def summariseDay (rows : List R) (operatorId : String) (dayStart dayEnd : Millis) :
    List R × Option AnchorSummary :=
  let prev := beforeTip S rows operatorId dayStart
  let day := S.found rows (S.within operatorId dayStart dayEnd)
  match day.head?, day.getLast? with
  | some first, some last =>
      let done := repair env S prev day rows
      (done.1, some
        { stream := S.name
          operatorId := operatorId
          periodDate := dateText dayStart
          firstRowId := some (S.id first)
          lastRowId := some (S.id last)
          rowCount := day.length
          tipHash := done.2.getD [] })
  | _, _ => (rows, none)

end Anchors

/-- The summary of an operator's day of wallet calls. -/
def summariseWalletCallDay (env : Env) (rows : List WalletCallRow) (operatorId : String)
    (dayStart dayEnd : Millis) : List WalletCallRow × Option AnchorSummary :=
  summariseDay env walletCalls rows operatorId dayStart dayEnd

/-- The summary of an operator's day of rounds. -/
def summariseRoundDay (env : Env) (rows : List RoundRow) (operatorId : String)
    (dayStart dayEnd : Millis) : List RoundRow × Option AnchorSummary :=
  summariseDay env rounds rows operatorId dayStart dayEnd

/-- The manifest that a summary is signed as. -/
def AnchorSummary.entries (s : AnchorSummary) : List (String × Value) :=
  [("stream", .string s.stream),
    ("operatorId", .string s.operatorId),
    ("periodDate", .string s.periodDate),
    ("firstRowId", nullable .string s.firstRowId),
    ("lastRowId", nullable .string s.lastRowId),
    ("rowCount", integer s.rowCount),
    ("tipHash", .string (String.ofList s.tipHash))]

/-- The anchor of a summary. -/
def AnchorSummary.anchor (s : AnchorSummary) (dayStart : Millis) (signature : Text) :
    AuditAnchor where
  periodDate := dayStart
  streamName := s.stream
  operatorId := some s.operatorId
  firstRowId := s.firstRowId
  lastRowId := s.lastRowId
  rowCount := s.rowCount
  tipHash := s.tipHash
  manifest := s
  signature := signature

/-- Whether two anchors are of one day, stream and operator. -/
def AuditAnchor.sameKey (a b : AuditAnchor) : Bool :=
  a.periodDate = b.periodDate && a.streamName = b.streamName && a.operatorId = b.operatorId

/-- An anchor is written over the one of its day, stream and operator, or added. -/
def upsert (anchors : List AuditAnchor) (a : AuditAnchor) : List AuditAnchor :=
  match anchors.findIdx? a.sameKey with
  | some i => anchors.set i a
  | none => anchors ++ [a]

/-- A summary is signed and written. -/
def writeAnchor (env : Env) (db : Db) (dayStart : Millis) (s : AnchorSummary) :
    Db × Except String Unit :=
  match signManifest env (canonicalJson (.object s.entries)) with
  | .error e => (db, .error e)
  | .ok signature =>
      ({ db with auditAnchors := upsert db.auditAnchors (s.anchor dayStart signature) }, .ok ())

/-- Anchors that were written, and days without rows. -/
structure Tally where
  written : Nat
  skipped : Nat
  deriving DecidableEq

/-- The end of one turn of the loop over streams: a summary is written, and none is skipped. -/
def record (env : Env) (db : Db) (dayStart : Millis) (tally : Tally) :
    Option AnchorSummary → Db × Except String Tally
  | none => (db, .ok { tally with skipped := tally.skipped + 1 })
  | some s =>
      match writeAnchor env db dayStart s with
      | (db', .error e) => (db', .error e)
      | (db', .ok ()) => (db', .ok { tally with written := tally.written + 1 })

/-- The wallet calls of one operator are anchored. -/
def anchorWalletCalls (env : Env) (db : Db) (dayStart : Millis) (tally : Tally)
    (operatorId : String) : Db × Except String Tally :=
  let done := summariseWalletCallDay env db.walletCalls operatorId dayStart (dayStart + dayMs)
  record env { db with walletCalls := done.1 } dayStart tally done.2

/-- The rounds of one operator are anchored. -/
def anchorRounds (env : Env) (db : Db) (dayStart : Millis) (tally : Tally) (operatorId : String) :
    Db × Except String Tally :=
  let done := summariseRoundDay env db.rounds operatorId dayStart (dayStart + dayMs)
  record env { db with rounds := done.1 } dayStart tally done.2

/-- The operators are anchored one after the other, each with its wallet calls first. -/
def anchorOperators (env : Env) (dayStart : Millis) :
    List String → Db → Tally → Db × Except String Tally
  | [], db, tally => (db, .ok tally)
  | op :: ops, db, tally =>
      match anchorWalletCalls env db dayStart tally op with
      | (db', .error e) => (db', .error e)
      | (db', .ok tally') =>
          match anchorRounds env db' dayStart tally' op with
          | (db'', .error e) => (db'', .error e)
          | (db'', .ok tally'') => anchorOperators env dayStart ops db'' tally''

/-- **The anchors of a day are written**, for every operator and both streams. -/
def anchorDay (env : Env) (db : Db) (date : Millis) : Db × Except String Tally :=
  anchorOperators env (startOfDay date) db.operators db ⟨0, 0⟩

/-! ## Verification -/

/-- The answer to a verification. -/
structure VerifyResult where
  stream : String
  operatorId : String
  periodDate : String
  expectedTip : Text
  computedTip : Text
  rowCount : Nat
  verified : Bool
  firstMismatchAtRowId : Option String

section Verify

variable {R : Type} (env : Env) (S : Stream R)

/-- A day is walked again: its tip, and the first row whose stored hash differs. -/
def replay : Option Text → Option String → List R → Option Text × Option String
  | prev, firstMismatch, [] => (prev, firstMismatch)
  | prev, firstMismatch, r :: day =>
      let computed := hashRow env prev (S.hashInput r)
      let differs := (S.rowHash r).any fun h => h ≠ [] && computed ≠ h
      replay (some computed)
        (if firstMismatch.isNone && differs then some (S.id r) else firstMismatch) day

/-- The hash that verification starts from: that of the last hashed row created before the day. -/
def seam (rows : List R) (operatorId : String) (dayStart : Millis) : Option Text :=
  ((S.found rows fun r => S.earlier operatorId dayStart r && S.hashed r).getLast?).bind S.rowHash

/-- An anchor is verified against the rows of its stream. -/
def verifyStream (rows : List R) (stream operatorId : String) (anchor : AuditAnchor) :
    VerifyResult :=
  let day := S.found rows (S.within operatorId anchor.periodDate (anchor.periodDate + dayMs))
  let done := replay env S (seam S rows operatorId anchor.periodDate) none day
  { stream := stream
    operatorId := operatorId
    periodDate := dateText anchor.periodDate
    expectedTip := anchor.tipHash
    computedTip := done.1.getD []
    rowCount := day.length
    verified := done.1.getD [] = anchor.tipHash
    firstMismatchAtRowId := done.2 }

end Verify

/-- **An anchor is verified.** The source calls the verdict `match`. -/
def verifyAnchor (env : Env) (db : Db) (anchorId : Nat) : Option VerifyResult :=
  match db.auditAnchors[anchorId]? with
  | none => none
  | some anchor =>
      match anchor.operatorId with
      | none => none
      | some operatorId =>
          if anchor.streamName = "wallet_call" then
            some (verifyStream env walletCalls db.walletCalls anchor.streamName operatorId anchor)
          else some (verifyStream env rounds db.rounds anchor.streamName operatorId anchor)

end YantraRgs.AuditChain
