import YantraRgs.Await.Pool
import YantraRgs.Services.PendingJobRunner

/-! # Who works on a queued wallet call

Runners of any number of processes work on the same queue. A runner locks a job by a conditional
update, reads it, looks for credentials, calls the wallet, and ends the job or puts it off, which
unlocks it. Administrators may put a job back into the queue, or cancel it, at any time; both unlock
it. Beside the rows, the model notes the attempts and how far each has come, which no column says.

* **`Attempt`**, **`World`** — the jobs, and the attempts at them.
* **`runJob`**, **`tick`** — the runner; an exception may come at any of its actions.
* **`retry`**, **`cancel`** — the two routes.
* **`queue`** — all of it as a system. -/

namespace YantraRgs.JobLocks

open Await

/-- How far an attempt has come. -/
inductive Phase
  /-- The job is locked. -/
  | locked
  /-- The job was read, and it is open. -/
  | taken
  /-- The wallet is being called. -/
  | calling
  /-- The wallet has answered. -/
  | called
  /-- The attempt is over. -/
  | done
  deriving DecidableEq

/-- An attempt at a job. -/
structure Attempt where
  owner : Nat
  jobId : Nat
  /-- Until when its lock stands. -/
  deadline : Millis
  phase : Phase
  deriving DecidableEq

/-- The world of queued wallet calls. -/
structure World where
  now : Millis
  jobs : List PendingWalletJob
  attempts : List Attempt

namespace World

variable (w : World)

/-- Attempt `m` comes to a phase. -/
def enter (m : Nat) (phase : Phase) : World :=
  { w with attempts := w.attempts.modify m fun a => { a with phase } }

/-- Change a job. -/
def updateJob (jobId : Nat) (f : PendingWalletJob → PendingWalletJob) : World :=
  { w with jobs := w.jobs.modify jobId f }

/-- Call `i` locks a job. -/
def locked (i jobId : Nat) : World :=
  { w.updateJob jobId fun j => { j with lockedUntil := some ⟨i, w.now + lockTtlMs⟩ } with
    attempts := w.attempts ++ [⟨i, jobId, w.now + lockTtlMs, .locked⟩] }

/-- Attempt `m` completes its job. -/
def completed (m jobId attempts : Nat) : World :=
  (w.enter m .done).updateJob jobId fun j =>
    { j with completedAt := some w.now, lockedUntil := none, attempts }

/-- Attempt `m` puts its job off. -/
def rescheduled (m jobId attempts : Nat) (lastError : String) : World :=
  (w.enter m .done).updateJob jobId fun j =>
    { j with
      attempts
      lastError := some lastError
      lockedUntil := none
      nextAttemptAt :=
        if maxAttempts ≤ attempts then w.now + 3600000
        else w.now + min 300000 (1000 * 2 ^ min attempts 8) }

end World

/-- What the outside chooses for one action. -/
structure Choice where
  /-- The action throws. -/
  throws : Bool
  /-- The operator has a wallet and an outbound credential. -/
  adapter : Bool
  /-- What the wallet answers. -/
  status : RsStatus
  /-- The rows that a query hands out. -/
  order : List Nat
  deriving DecidableEq

/-- A piece of a call. -/
abbrev Action := Prog World Choice

/-! ## The runner -/

/-- Lock a job, unless another attempt holds it; the number of the attempt. -/
def lockJob (jobId : Nat) : Action (Option Nat) :=
  Prog.request fun i w =>
    if (w.jobs[jobId]?).any fun j => j.lockable w.now then
      (some w.attempts.length, w.locked i jobId)
    else (none, w)

/-- Read the job of attempt `m`; a completed one ends the attempt, and keeps the lock. -/
def takeJob (m jobId : Nat) : Action (Option PendingWalletJob) :=
  Prog.lift fun _ c w =>
    if c.throws then some (none, w.enter m .done)
    else match (w.jobs[jobId]?).filter fun job => job.completedAt = none with
      | none => some (none, w.enter m .done)
      | some job => some (some job, w.enter m .taken)

/-- Look for a wallet and a credential. -/
def buildAdapter (m : Nat) : Action (Option Bool) :=
  Prog.lift fun _ c w => if c.throws then some (none, w.enter m .done) else some (some c.adapter, w)

/-- Start the wallet call. -/
def startCall (m : Nat) : Action Unit :=
  Prog.modify fun w => w.enter m .calling

/-- The status of the wallet's answer, unless the call throws. -/
def awaitStatus (m : Nat) : Action (Option RsStatus) :=
  Prog.lift fun _ c w => some (if c.throws then none else some c.status, w.enter m .called)

/-- The wallet call of a job. -/
def callWallet (m : Nat) (job : PendingWalletJob) : Action (Option RsStatus) :=
  if job.request.isNone then pure (some (.unrecognised "MALFORMED_JOB"))
  else do
    startCall m
    awaitStatus m

/-- A write at the end of an attempt; whether it went through. -/
def tryWrite (f : World → World) : Action Bool :=
  Prog.lift fun _ c w => if c.throws then some (false, w) else some (true, f w)

/-- Put a job off; an exception ends the attempt without. -/
def reschedule (m jobId attempts : Nat) (lastError : String) : Action Unit :=
  Prog.lift fun _ c w =>
    if c.throws then some ((), w.enter m .done)
    else some ((), w.rescheduled m jobId attempts lastError)

/-- One attempt: the wallet call of the job, and then its end or its next date; whether no exception
came. -/
def attempt (m jobId : Nat) (job : PendingWalletJob) : Action Bool := do
  let status ← callWallet m job
  match status with
  | none => pure false
  | some status =>
      if endsJob status then tryWrite fun w => w.completed m jobId (job.attempts + 1)
      else tryWrite fun w => w.rescheduled m jobId (job.attempts + 1) status.text

/-- What is left of a run once the job is locked. -/
def work (m jobId : Nat) : Action Unit := do
  let job ← takeJob m jobId
  match job with
  | none => pure ()
  | some job =>
      let adapter ← buildAdapter m
      match adapter with
      | none => pure ()
      | some false => reschedule m jobId (job.attempts + 1) "no_outbound_credential"
      | some true =>
          let done ← attempt m jobId job
          if done then pure () else reschedule m jobId (job.attempts + 1) "error"

/-- **One run of one job.** -/
def runJob (jobId : Nat) : Action Unit := do
  let locked ← lockJob jobId
  match locked with
  | none => pure ()
  | some m => work m jobId

/-- **One poll of the queue**: up to ten jobs that are due, one after the other. -/
def tick : Action Unit := do
  let jobs ← Prog.lift fun _ c w =>
    let due := Table.ids (PendingWalletJob.due w.now) w.jobs
    if c.order.Nodup ∧ c.order ⊆ due ∧ c.order.length = min 10 due.length then some (c.order, w)
    else none
  Prog.each runJob jobs

/-! ## The routes -/

/-- Find an open job of an operator, and change what is there then. -/
def withJob (operatorId : OperatorId) (jobId : Nat)
    (change : Millis → PendingWalletJob → PendingWalletJob) : Action Unit := do
  let job ← Prog.query fun w => w.jobs[jobId]?
  if job.any fun job => job.operatorId = operatorId ∧ job.completedAt = none then
    Prog.modify fun w => w.updateJob jobId (change w.now)
  else pure ()

/-- **Retry a job at once.** -/
def retry (operatorId : OperatorId) (jobId : Nat) : Action Unit :=
  withJob operatorId jobId fun now j => { j with nextAttemptAt := now, lockedUntil := none }

/-- **Cancel a job.** -/
def cancel (operatorId : OperatorId) (jobId : Nat) (reason : String) : Action Unit :=
  withJob operatorId jobId fun now j =>
    { j with
      completedAt := some now
      lockedUntil := none
      lastError := some ("cancelled: " ++ reason) }

/-! ## The system -/

/-- What can be called. -/
inductive Call
  | tick
  | retry (operatorId : OperatorId) (jobId : Nat)
  | cancel (operatorId : OperatorId) (jobId : Nat) (reason : String)
  deriving DecidableEq

/-- The program of a call. -/
def Call.code : Call → Action Unit
  | .tick => JobLocks.tick
  | .retry operatorId jobId => JobLocks.retry operatorId jobId
  | .cancel operatorId jobId reason => JobLocks.cancel operatorId jobId reason

/-- What happens outside. -/
inductive Outside
  /-- Time passes. -/
  | elapse (ms : Millis)
  /-- A wallet call is queued. -/
  | enqueue (job : PendingWalletJob)
  deriving DecidableEq

/-- What happens to the world from outside. -/
def World.outside (w : World) : Outside → World
  | .elapse ms => { w with now := w.now + ms }
  | .enqueue job =>
      { w with jobs := w.jobs ++ [{ job with lockedUntil := none, completedAt := none }] }

/-- **The queue and everybody who works on it.** -/
def queue : System World Choice Call Outside where
  code := Call.code
  admits _ _ := true
  env x w := some (w.outside x)
  dies _ _ := false

/-- A state of the queue. -/
abbrev State := Pool World Choice Call

/-- An event of the queue. -/
abbrev Happening := Event Choice Call Outside

/-- An empty queue. -/
def initial (now : Millis) : State := ⟨⟨now, [], []⟩, []⟩

end YantraRgs.JobLocks
