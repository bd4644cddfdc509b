import Mathlib.Algebra.Group.Nat.Defs
import YantraRgs.Wallet.Client

/-! # The runner of queued wallet calls

A tick takes up to ten due jobs. `runJob` locks a job, makes one attempt with a wallet client of its
own, and then completes the job or puts it off. A lock that has expired can be taken over.

* **`PendingJobRunner.runJob`** — one attempt at one job.
* **`PendingJobRunner.tick`** — one poll of the queue. -/

namespace YantraRgs

open Await

/-- For how long a run locks its job. -/
def lockTtlMs : Millis := 60000

/-- After how many attempts a job is exhausted. -/
def maxAttempts : Nat := 12

/-- Whether a job can be locked. -/
def PendingWalletJob.lockable (now : Millis) (j : PendingWalletJob) : Bool :=
  j.lockedUntil.all fun lock => lock.expiresAt < now

/-- Whether a job is due. -/
def PendingWalletJob.due (now : Millis) (j : PendingWalletJob) : Bool :=
  j.completedAt = none ∧ j.nextAttemptAt ≤ now ∧ j.lockable now

/-- The wallet request of a queued job; nothing when the job is malformed. -/
def PendingWalletJob.request (j : PendingWalletJob) : Option WalletRequest :=
  let common : WalletRequest :=
    { endpoint := j.endpoint, requestUuid := j.payload.requestUuid, transactionUuid := none
      referenceTransactionUuid := none, operatorId := j.operatorId
      playerRef := j.payload.playerRef, currency := j.payload.currency
      gameCode := j.payload.gameCode, amountMicro := none, roundId := none }
  match j.endpoint, j.payload.amountMicro, j.payload.referenceTransactionUuid,
    j.payload.roundId with
  | .win, some amount, some reference, some roundId =>
      some { common with
        transactionUuid := some j.payload.transactionUuid
        referenceTransactionUuid := some reference
        amountMicro := some amount
        roundId := some roundId }
  | .rollback, _, some reference, roundId =>
      some { common with
        transactionUuid := some j.payload.transactionUuid
        referenceTransactionUuid := some reference
        roundId }
  | .bet, some amount, _, some roundId =>
      some { common with
        transactionUuid := some j.payload.transactionUuid
        amountMicro := some amount
        roundId := some roundId }
  | .balance, _, _, _ => some common
  | _, _, _, _ => none

/-- Whether the status of an attempt ends its job. -/
def endsJob (status : RsStatus) : Bool :=
  isSuccessOrDuplicate status || status = .transactionNotFound

namespace PendingJobRunner

variable (env : Env)

/-- Put a job off after a failed attempt. -/
def reschedule (jobId attempts : Nat) (lastError : String) : Action Unit :=
  Prog.modify fun w => w.updateJob jobId fun j =>
    { j with
      attempts
      lastError := some lastError
      lockedUntil := none
      nextAttemptAt :=
        if maxAttempts ≤ attempts then w.now + 3600000
        else w.now + min 300000 (1000 * 2 ^ min attempts 8) }

/-- Complete a job. -/
def complete (jobId attempts : Nat) : Action Unit :=
  Prog.modify fun w => w.updateJob jobId fun j =>
    { j with completedAt := some w.now, lockedUntil := none, attempts }

/-- Lock a job, unless another run holds it. -/
def lockJob (jobId : Nat) : Action Bool :=
  Prog.request fun i w =>
    if (w.jobs[jobId]?).any fun j => j.lockable w.now then
      (true, w.updateJob jobId fun j => { j with lockedUntil := some ⟨i, w.now + lockTtlMs⟩ })
    else (false, w)

/-- Whether the operator has an outbound credential and a wallet to call. -/
def buildAdapter (operatorId : OperatorId) : Action Bool := do
  let op ← Action.findUnique World.operators operatorId
  match op with
  | none => pure false
  | some op =>
      let cred ← Prog.query fun w => w.credentials.any fun c =>
        c.operatorId = operatorId ∧ c.outbound ∧ c.revokedAt = none
      pure (cred && op.walletCallbackUrl.isSome)

/-- The wallet call of a job, and its status. -/
def callWallet (job : PendingWalletJob) : Action RsStatus :=
  match job.request with
  | none => pure (.unrecognised "MALFORMED_JOB")
  | some req => do
      let res ← WalletClient.invoke ⟨job.operatorId, none⟩ env req
        ⟨none, job.roundId, some (job.attempts + 1)⟩
      pure res.status

/-- One attempt: the wallet call of the job, and then its end or its next date. -/
def attempt (jobId : Nat) (job : PendingWalletJob) : Action Unit := do
  let status ← callWallet env job
  if endsJob status then complete jobId (job.attempts + 1)
  else reschedule jobId (job.attempts + 1) status.text

/-- **One run of one job.** -/
def runJob (jobId : Nat) : Action Unit := do
  let locked ← lockJob jobId
  if !locked then pure ()
  else
    let job ← Action.findUnique World.jobs jobId
    match job.filter fun job => job.completedAt = none with
    | none => pure ()
    | some job =>
        let adapter ← buildAdapter job.operatorId
        if !adapter then reschedule jobId (job.attempts + 1) "no_outbound_credential"
        else
          let done ← (attempt env jobId job).catching (· = .fail)
          match done with
          | some _ => pure ()
          | none => reschedule jobId (job.attempts + 1) "error"

/-- **One poll of the queue.** A run that throws does not hold up the others. -/
def tick : Action Unit := do
  let jobs ← Action.findSome 10 World.jobs fun w j => j.due w.now
  Prog.each (fun (job : Nat × PendingWalletJob) => do
    let _ ← (runJob env job.1).catching (· = .throw)
    pure ()) jobs

end PendingJobRunner

end YantraRgs
