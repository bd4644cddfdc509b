import YantraRgs.Conduct.Calling

/-! # Running queued jobs keeps to the rules

A run holds the lock of its job from the moment it takes it until it completes the job or puts it
off; as far as the policy keeps others from taking held locks, nobody else touches the job or its
request meanwhile.

* **`Held`** — a job that the call holds, with its uses counted.
* **`callWallet_go`** — the wallet call of a held job.
* **`runJob_go`**, **`tick_go`** — a run, and a poll of the queue. -/

namespace YantraRgs

open Await

variable {P : Policy} {i : Nat} {k : Call} {w w' : World} {env : Env} {jobId : Nat}
variable {job : PendingWalletJob}

/-- Call `i` holds the job, whose request was used for attempts up to `n` on the wire and up to `m`
in the journal. -/
structure Held (P : Policy) (i jobId : Nat) (job : PendingWalletJob) (n m : Nat) (w : World) :
    Prop where
  row : ∃ j, w.jobs[jobId]? = some j ∧ job.Later j
  held : P.freeLocks → w.jobs[jobId]? = some job ∧ job.lockedUntil.map JobLock.holder = some i
  wire : P.freeLocks → ∀ s ∈ w.wire, s.request.requestUuid = job.payload.requestUuid →
    s.attempt ≤ n
  calls : P.freeLocks → ∀ c ∈ w.walletCalls, c.requestUuid = job.payload.requestUuid →
    c.attempt ≤ m

theorem held_stable {n m : Nat} : Stable P i k (Held P i jobId job n m) := by
  intro w w' hr h
  refine ⟨?_, fun hP => ?_, fun hP s hs hq => ?_, fun hP c hc hq => ?_⟩
  · obtain ⟨j, hj, hl⟩ := h.row
    obtain ⟨j', hj', hl'⟩ := hr.later.job hj
    exact ⟨j', hj', hl.trans hl'⟩
  · obtain ⟨hj, hh⟩ := h.held hP
    exact ⟨(hr.locks hP hj hh).1, hh⟩
  · obtain ⟨hj, hh⟩ := h.held hP
    exact h.wire hP s ((hr.locks hP hj hh).2.wire s hs hq) hq
  · obtain ⟨hj, hh⟩ := h.held hP
    obtain ⟨c₀, hc₀, hk⟩ := (hr.locks hP hj hh).2.calls c hc hq
    have ha : c₀.attempt = c.attempt := congrArg (fun t => t.2.2.2) hk
    exact ha ▸ h.calls hP c₀ hc₀ ((congrArg (fun t => t.2.2.1) hk).trans hq)

/-- A count may be given too high. -/
theorem Held.mono {n m n' m' : Nat} (h : Held P i jobId job n m w) (hn : n ≤ n') (hm : m ≤ m') :
    Held P i jobId job n' m' w :=
  ⟨h.row, h.held, fun hP s hs hq => (h.wire hP s hs hq).trans hn,
    fun hP c hc hq => (h.calls hP c hc hq).trans hm⟩

/-- The run whose next attempt is the job's. -/
theorem Held.running {n m : Nat} (h : Held P i jobId job n m w) :
    ∃ j, Running P i w j (job.attempts + 1) ∧ job.Later j := by
  obtain ⟨j, hj, hl⟩ := h.row
  refine ⟨j, ⟨List.mem_of_getElem? hj, fun hP => ?_⟩, hl⟩
  obtain ⟨hrow, hh⟩ := h.held hP
  rw [hj] at hrow
  obtain rfl := Option.some.inj hrow
  exact ⟨hh, rfl⟩

/-- The lock may be given back after the attempt. -/
theorem Held.unlocking {n : Nat} (h : Held P i jobId job n n w) {j : PendingWalletJob}
    (hj : w.jobs[jobId]? = some j) (hP : P.freeLocks) : Unlocking i w j n := by
  obtain ⟨hrow, hh⟩ := h.held hP
  rw [hj] at hrow
  obtain rfl := Option.some.inj hrow
  exact ⟨hh, h.wire hP, h.calls hP⟩

/-- The stages of the wallet call of a job. -/
theorem jobStages {req : WalletRequest} (hreq : job.request = some req) :
    Stages P i k req (job.attempts + 1) (Held P i jobId job job.attempts job.attempts)
      (fun row w => Held P i jobId job job.attempts
        (if row.isSome then job.attempts + 1 else job.attempts) w)
      (fun n w => Held P i jobId job (job.attempts + 1) (job.attempts + 1) w ∧
        ∃ s, w.wire[n]? = some s ∧ s.request = req) where
  pre_stable := held_stable
  mid_stable _ := held_stable
  post_stable n := held_stable.and (.of_later fun hl ⟨s, hs, hq⟩ => ⟨s, hl.wire hs, hq⟩)
  call {w c} h _ hq ha := by
    obtain ⟨j, hj, hl⟩ := h.running
    exact .again j (ha ▸ hj) (by rw [hq, (PendingWalletJob.request_fields hreq).1, hl.payload])
  journal {w c} h hq ha := by
    refine ⟨h.row, h.held, h.wire, fun hP c' hc' hq' => ?_⟩
    rcases List.mem_append.mp hc' with hc' | hc'
    · exact (h.calls hP c' hc' hq').trans (Nat.le_succ _)
    · obtain rfl := List.mem_singleton.mp hc'
      exact Nat.le_of_eq ha
  skip h _ := h
  handing {w n} h _ := by
    obtain ⟨j, hj, hl⟩ := h.running
    refine .job j hj (hl.request.trans hreq) fun hP s hs hq => Nat.lt_succ_of_le ?_
    exact h.wire hP s hs (hq.trans (PendingWalletJob.request_fields hreq).1)
  clear h hP c hc hq ha := by
    have hle := h.calls hP c hc (hq.trans (PendingWalletJob.request_fields hreq).1)
    simp only [Option.isSome_none, Bool.false_eq_true, if_false] at hle
    omega
  sent {w n} h := by
    refine ⟨⟨h.row, h.held, fun hP s hs hq => ?_, fun hP c hc hq => ?_⟩, _,
      Table.getElem?_concat_length _ _, rfl⟩
    · rcases List.mem_append.mp hs with hs | hs
      · exact (h.wire hP s hs hq).trans (Nat.le_succ _)
      · obtain rfl := List.mem_singleton.mp hs
        exact Nat.le_refl _
    · refine (h.calls hP c hc hq).trans ?_
      split <;> omega

/-- The rules of a run while it holds its job. -/
def heldRules (P : Policy) (i : Nat) (k : Call) (jobId : Nat) (job : PendingWalletJob) :
    Rules World :=
  { rules P i k with
    guar := fun w w' => Move P i k w w' ∧
      Held P i jobId job (job.attempts + 1) (job.attempts + 1) w' }

/-- **The wallet call of a held job**: a status that ends the job was answered by the operator. -/
theorem callWallet_go (env : Env) (h : Held P i jobId job job.attempts job.attempts w) :
    Go (heldRules P i k jobId job) i (PendingJobRunner.callWallet env job) (fun status w' =>
      Held P i jobId job (job.attempts + 1) (job.attempts + 1) w' ∧
        (endsJob status = true → w'.Answered job)) w := by
  have hmore : ∀ {w}, Held P i jobId job job.attempts job.attempts w →
      Held P i jobId job (job.attempts + 1) (job.attempts + 1) w :=
    fun h => h.mono (Nat.le_succ _) (Nat.le_succ _)
  unfold PendingJobRunner.callWallet
  split
  · exact ⟨hmore h, fun hends => by simp [endsJob, isSuccessOrDuplicate] at hends⟩
  rename_i req hreq
  have hcall := invoke_go ⟨none, job.roundId, some (job.attempts + 1)⟩
    (Q := fun res w' => Held P i jobId job (job.attempts + 1) (job.attempts + 1) w' ∧
      (endsJob res.status = true → w'.Answered job)) (jobStages (k := k) hreq)
    ⟨job.operatorId, none⟩ env h ?_ ?_
  · refine Go.bind_iff.mpr (hcall.mono_guar ?_)
    rintro w w' ⟨hmove, hstage⟩
    refine ⟨hmove, ?_⟩
    rcases hstage with h | ⟨n, h⟩ | ⟨n, h, -⟩
    · exact hmore h
    · exact h.mono (Nat.le_succ _) (by split <;> omega)
    · exact h
  · intro w res h hs
    exact ⟨hmore h, fun hends => by simp [hs, endsJob, isSuccessOrDuplicate] at hends⟩
  · intro w n res ⟨h, s, hs, hq⟩ htold
    refine ⟨h, fun hends => ?_⟩
    rcases htold with ht | ht | ⟨r, hr, hsent, hst⟩
    · simp [ht, endsJob, isSuccessOrDuplicate] at hends
    · simp [ht, endsJob, isSuccessOrDuplicate] at hends
    · exact ⟨r, hr, s, hsent ▸ hs, by rw [hq, hreq], hst ▸ hends⟩

/-- Putting a held job off. -/
theorem reschedule_go {n : Nat} {error : String} (h : Held P i jobId job n n w) :
    Walk P i k (PendingJobRunner.reschedule jobId n error) (fun _ _ => True) w := by
  refine Go.modify fun w₁ hr _ _ => ⟨?_, fun _ => trivial⟩
  exact updateJob_move _ fun j hj => .putOff j n error _ ((held_stable hr h).unlocking hj)

/-- Completing a held job. -/
theorem complete_go {n : Nat} (h : Held P i jobId job n n w) (ha : w.Answered job) :
    Walk P i k (PendingJobRunner.complete jobId n) (fun _ _ => True) w := by
  refine Go.modify fun w₁ hr _ _ => ⟨?_, fun _ => trivial⟩
  have h₁ := held_stable hr h
  refine updateJob_move _ fun j hj => .complete j n _ ?_ (h₁.unlocking hj)
  obtain ⟨j', hj', hl⟩ := h₁.row
  rw [hj] at hj'
  obtain rfl := Option.some.inj hj'
  exact hr.later.answered hl ha

/-- **One attempt at a held job**; when it fails the job is still held. -/
theorem attempt_go {throws : Choice → Bool} (h : Held P i jobId job job.attempts job.attempts w) :
    Walk P i k ((PendingJobRunner.attempt env jobId job).catching throws) (fun o w' =>
      o.isNone = true → Held P i jobId job (job.attempts + 1) (job.attempts + 1) w') w := by
  have hrefl : ∀ {w}, Held P i jobId job (job.attempts + 1) (job.attempts + 1) w →
      Move P i k w w := fun _ => .idle (.refl _)
  have hcall := (Go.catching throws (callWallet_go env (k := k) h)
    (h.mono (Nat.le_succ _) (Nat.le_succ _)) (fun hr h => held_stable hr h) (fun hg _ => hg.2)
    fun h => ⟨.idle (.refl _), h⟩).mono_guar (G := Move P i k) And.left
  rw [PendingJobRunner.attempt, Prog.catching_bind]
  refine Go.bind_iff.mpr (hcall.mono fun o w ho => ?_)
  cases o with
  | none => exact fun _ => ho
  | some status =>
      obtain ⟨h, ha⟩ := ho
      dsimp only
      split
      · exact (Go.catching_lift (complete_go h (ha (by assumption))) h
          (fun hr h => held_stable hr h) hrefl).mono fun o w' ho hnone => by
            cases o with
            | none => exact ho
            | some _ => cases hnone
      · exact (Go.catching_lift (reschedule_go h) h
          (fun hr h => held_stable hr h) hrefl).mono fun o w' ho hnone => by
            cases o with
            | none => exact ho
            | some _ => cases hnone

/-- Taking the lock of a job. -/
theorem lockJob_go : Walk P i k (PendingJobRunner.lockJob jobId) (fun locked w' => locked = true →
    ∃ job, Held P i jobId job job.attempts job.attempts w') w := by
  refine Go.request fun w₁ hr hs hpermit => ?_
  by_cases hlock : (w₁.jobs[jobId]?).any fun j => j.lockable w₁.now
  swap
  · simp only [hlock, Bool.false_eq_true, if_false]
    exact ⟨.idle (.refl w₁), fun _ hlocked => nomatch hlocked⟩
  simp only [hlock, if_true] at hpermit ⊢
  obtain ⟨j, hj, hl⟩ := (Option.any_eq_true _ _).mp hlock
  have hset := Table.getElem?_set_self_of_some (x :=
    { j with lockedUntil := some ⟨i, w₁.now + lockTtlMs⟩ }) hj
  simp only [World.updateJob, Table.modify_eq_set hj] at hpermit ⊢
  refine ⟨.job jobId j _ hj (.lock j _ (Nat.le_add_right _ _) hl), fun _ _ => ⟨_,
    ⟨_, hset, .refl _⟩, fun _ => ⟨hset, rfl⟩, fun hP => ?_, fun hP => ?_⟩⟩
  all_goals
    -- the lock was free, and no use of the request is ahead of the job's count
    have hchanged : (some ⟨i, w₁.now + lockTtlMs⟩ : Option JobLock) ≠ j.lockedUntil := by
      intro he
      simp only [PendingWalletJob.lockable, ← he, Option.all_some, decide_eq_true_eq] at hl
      exact absurd hl (Nat.not_lt.mpr (Nat.le_add_right _ _))
    obtain ⟨hfree, hunsent⟩ := hpermit.locked hP hj hset hchanged rfl
    have htallied : w₁.Tallied j j.attempts := by
      rcases hs.locks hP (List.mem_of_getElem? hj) hfree with ht | ⟨ha, s, hsm, hq⟩
      · exact ht
      · exact absurd hq (hunsent ha s hsm)
  · exact htallied.wire
  · exact htallied.calls

/-- **One run of one job.** -/
theorem runJob_go : Walk P i k (PendingJobRunner.runJob env jobId) (fun _ _ => True) w := by
  refine Go.bind_iff.mpr (lockJob_go.mono fun locked w hheld => ?_)
  split
  · trivial
  rename_i hlocked
  obtain ⟨job, h⟩ := hheld (by simpa using hlocked)
  have hread : Walk P i k (Action.findUnique World.jobs jobId) (fun job' w' => ∀ j, job' = some j →
      Held P i jobId j j.attempts j.attempts w') w := by
    refine Go.query (fun w => .idle (.refl w)) fun w₁ hr _ j hj => ?_
    have h₁ := held_stable hr h
    have hsame : P.freeLocks → j = job := fun hP => by
      rw [(h₁.held hP).1] at hj
      exact (Option.some.inj hj).symm
    refine ⟨⟨j, hj, .refl _⟩, fun hP => ?_, fun hP => ?_, fun hP => ?_⟩
    · exact hsame hP ▸ h₁.held hP
    · exact hsame hP ▸ h₁.wire hP
    · exact hsame hP ▸ h₁.calls hP
  refine Go.bind_iff.mpr (hread.mono fun job' w hheld => ?_)
  split
  · trivial
  rename_i job' hjob
  have h := hheld job' (Option.filter_eq_some_iff.mp hjob).1
  have hadapter : Idle (PendingJobRunner.buildAdapter job'.operatorId) := by
    refine Prog.Keeps.bind (Idle.findUnique _ _) fun op => ?_
    cases op with
    | none => trivial
    | some op => exact Prog.Keeps.bind (Prog.Keeps.query Same.refl _) fun _ => trivial
  refine Walk.idle_bind hadapter h held_stable fun adapter w h => ?_
  split
  · exact reschedule_go (h.mono (Nat.le_succ _) (Nat.le_succ _))
  · refine Go.bind_iff.mpr ((attempt_go h).mono fun done w ho => ?_)
    cases done with
    | none => exact reschedule_go (ho rfl)
    | some _ => trivial

/-- **One poll of the queue.** -/
theorem tick_go : Walk P i k (PendingJobRunner.tick env) (fun _ _ => True) w := by
  refine Go.bind_iff.mpr ((Walk.of_idle (Idle.findSome _ _ _)).mono fun jobs w _ => ?_)
  refine Go.each (fun _ _ => True) trivial (fun job rest w _ => ?_) fun _ _ => trivial
  refine Go.bind_iff.mpr ((Go.catching _ (R := fun _ => True) runJob_go trivial (fun _ _ => trivial)
    (fun _ _ => trivial) fun _ => .idle (.refl _)).mono fun _ _ _ => trivial)

end YantraRgs
