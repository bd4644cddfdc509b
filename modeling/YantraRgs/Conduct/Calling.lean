import YantraRgs.Conduct.Idle

/-! # Wallet calls

What a caller of the wallet client has to know before a call, and what it knows after it.

* **`Stages`** — the facts that carry a call through: before its journal row, before the request is
  handed over, and after.
* **`invoke_go`** — a call that has its stages.
* **`Unsent`**, **`invoke_first_go`** — a request that nobody used before. -/

namespace YantraRgs

open Await

variable {P : Policy} {i : Nat} {k : Call} {w w' : World}

/-- What the adapter answered to the request at place `n` of the wire: an answer of its own, or the
operator's. -/
def World.Told (w : World) (n : Nat) (res : WalletResponse) : Prop :=
  res.status = .timeout ∨ res.status = .unknown ∨
    ∃ r ∈ w.replies, r.sent = n ∧ r.status = res.status

/-- What was answered stays answered. -/
theorem Later.told (h : Later w w') {n : Nat} {res : WalletResponse} (ht : w.Told n res) :
    w'.Told n res :=
  ht.imp_right (Or.imp_right fun ⟨r, hr, hs⟩ => ⟨r, h.replies hr, hs⟩)

/-- The journal row `n`, when there is one, is a row of the given request and attempt. -/
def World.NotedAs (w : World) (n : Option Nat) (req : WalletRequest) (attempt : Nat) : Prop :=
  ∀ m, n = some m → ∃ c, w.walletCalls[m]? = some c ∧ c.endpoint = req.endpoint ∧
    c.requestUuid = req.requestUuid ∧ c.attempt = attempt

/-- A journal row stays a row of its request. -/
theorem Later.notedAs (h : Later w w') {n : Option Nat} {req : WalletRequest} {attempt : Nat}
    (hn : w.NotedAs n req attempt) : w'.NotedAs n req attempt := by
  intro m hm
  obtain ⟨c, hc, he, hq, ha⟩ := hn m hm
  obtain ⟨c', hc', hk⟩ := h.calls hc
  exact ⟨c', hc', (congrArg (fun t => t.2.1) hk).trans he,
    (congrArg (fun t => t.2.2.1) hk).trans hq, (congrArg (fun t => t.2.2.2) hk).trans ha⟩

/-- **The facts that carry a wallet call through**: `pre` before the journal row is written, `mid`
before the request is handed over, with the row if there is one, and `post` after. -/
structure Stages (P : Policy) (i : Nat) (k : Call) (req : WalletRequest) (attempt : Nat)
    (pre : World → Prop) (mid : Option Nat → World → Prop) (post : Nat → World → Prop) : Prop where
  pre_stable : Stable P i k pre
  mid_stable : ∀ n, Stable P i k (mid n)
  post_stable : ∀ n, Stable P i k (post n)
  call : ∀ {w c}, pre w → Sound P w → c.requestUuid = req.requestUuid → c.attempt = attempt →
    NewCall P i w c
  journal : ∀ {w c}, pre w → c.requestUuid = req.requestUuid → c.attempt = attempt →
    mid (some w.walletCalls.length) (w.addWalletCall c)
  skip : ∀ {w}, pre w → Sound P w → mid none w
  handing : ∀ {w n}, mid n w → Sound P w → Handing P i k w ⟨req, attempt, n, i⟩
  clear : ∀ {w}, mid none w → P.freeLocks → ∀ c ∈ w.walletCalls,
    c.requestUuid = req.requestUuid → c.attempt ≠ attempt
  sent : ∀ {w n}, mid n w → post w.wire.length (w.hand ⟨req, attempt, n, i⟩)

/-- One of the stages of a wallet call. -/
def Stage (pre : World → Prop) (mid : Option Nat → World → Prop) (post : Nat → World → Prop)
    (w : World) : Prop := pre w ∨ (∃ n, mid n w) ∨ ∃ n, post n w

/-! ## The parts of a call that leave the tables alone -/

namespace Idle

theorem tryAcquire (client : WalletClient) (endpoint : WalletEndpoint) :
    Idle (client.tryAcquire endpoint) := by
  refine Prog.Keeps.request fun i w => ?_
  dsimp only
  split
  · exact .refl w
  · split
    · exact .refl w
    · exact .updateEngine (fun _ => by rfl) (fun _ => by rfl) w _

theorem record (client : WalletClient) (endpoint : WalletEndpoint) (status : RsStatus) :
    Idle (client.record endpoint status) := by
  refine Prog.Keeps.modify fun w => ?_
  split
  · exact .refl w
  · split
    · exact .refl w
    · exact .updateEngine (fun _ => by rfl) (fun _ => by rfl) w _

theorem journalAnswer (client : WalletClient) (env : Env) (row : WalletCall) (id : Nat)
    (res : WalletResponse) (latencyMs : Millis) :
    Idle (client.journalAnswer env row id res latencyMs) := by
  refine Prog.Keeps.bind (Prog.Keeps.catching Same.refl _ (Prog.Keeps.query Same.refl _))
    fun tip => ?_
  exact Prog.Keeps.modify fun w => .updateWalletCall (fun _ => by rfl) w id

end Idle

/-- What the adapter answers was told about the request. -/
theorem awaitReply_told {req : WalletRequest} {n : Nat} {c : Choice} {res : WalletResponse}
    (h : (match c with
      | .reply m =>
          match w.replies[m]? with
          | some r =>
              if r.sent = n then some (⟨r.status, req.requestUuid, r.balanceMicro, r.message⟩, w)
              else none
          | none => none
      | .timeout => some (⟨.timeout, req.requestUuid, none, some "timeout"⟩, w)
      | .error message => some (⟨.unknown, req.requestUuid, none, some message⟩, w)
      | _ => none : Option (WalletResponse × World)) = some (res, w')) :
    w = w' ∧ w.Told n res := by
  split at h
  · split at h
    · rename_i m _ r hr
      split at h
      · rename_i hsent
        obtain ⟨rfl, rfl⟩ := Prod.mk.inj (Option.some.inj h)
        exact ⟨rfl, .inr (.inr ⟨r, List.mem_of_getElem? hr, hsent, rfl⟩)⟩
      · cases h
    · cases h
  · obtain ⟨rfl, rfl⟩ := Prod.mk.inj (Option.some.inj h)
    exact ⟨rfl, .inl rfl⟩
  · obtain ⟨rfl, rfl⟩ := Prod.mk.inj (Option.some.inj h)
    exact ⟨rfl, .inr (.inl rfl)⟩
  · cases h

/-! ## A call that has its stages -/

section Invoke

variable {req : WalletRequest} {audit : AuditContext} {pre : World → Prop}
variable {mid : Option Nat → World → Prop} {post : Nat → World → Prop}
variable {Q : WalletResponse → World → Prop}

/-- The rules of a call inside a wallet call: it is in one of the stages all along. -/
def stageRules (P : Policy) (i : Nat) (k : Call) (pre : World → Prop)
    (mid : Option Nat → World → Prop) (post : Nat → World → Prop) : Rules World :=
  { rules P i k with guar := fun w w' => Move P i k w w' ∧ Stage pre mid post w' }

/-- An idle part of a wallet call stays in a stage. -/
theorem stage_idle {α : Type} {R : World → Prop} {p : Action α} (hp : Idle p) (hR : R w)
    (hstable : Stable P i k R) (hstage : ∀ {w}, R w → Stage pre mid post w) :
    Go (stageRules P i k pre mid post) i p (fun _ w' => R w') w :=
  Go.keeps hp hR (fun hr => hstable hr) fun hR hs =>
    ⟨⟨.idle hs, hstage (hstable hs.rely hR)⟩, hstable hs.rely hR⟩

/-- Writing the journal row. -/
theorem createWalletCall_go (h : Stages P i k req (audit.attempt.getD 1) pre mid post)
    (client : WalletClient) (hpre : pre w) :
    Go (stageRules P i k pre mid post) i (Action.createWalletCall (client.journalRow req audit))
      (fun n w' => mid n w' ∧ w'.NotedAs n req (audit.attempt.getD 1)) w := by
  refine Go.lift fun w₁ hr hs c n w₂ hrun _ => ?_
  have hpre₁ : pre w₁ := h.pre_stable hr hpre
  split at hrun
  · obtain ⟨rfl, rfl⟩ := Prod.mk.inj (Option.some.inj hrun)
    have hmid := h.skip hpre₁ hs
    exact ⟨⟨.idle (.refl w₁), .inr (.inl ⟨_, hmid⟩)⟩, fun _ => ⟨hmid, fun m hm => nomatch hm⟩⟩
  · rename_i hnew
    obtain ⟨rfl, rfl⟩ := Prod.mk.inj (Option.some.inj hrun)
    have hmid := h.journal (c := { client.journalRow req audit with createdAt := w₁.now })
      hpre₁ rfl rfl
    have hkey : ∀ c' ∈ w₁.walletCalls,
        c'.key ≠ (client.journalRow req audit).key := by
      intro c' hc' he
      refine hnew (.inr (List.any_eq_true.mpr ⟨c', hc', ?_⟩))
      simp only [WalletCall.key, Prod.mk.injEq] at he
      simpa using he
    refine ⟨⟨.addCall _ (h.call hpre₁ hs rfl rfl) hkey, .inr (.inl ⟨_, hmid⟩)⟩,
      fun _ => ⟨hmid, fun m hm => ?_⟩⟩
    obtain rfl := Option.some.inj hm
    exact ⟨_, Table.getElem?_concat_length _ _, rfl, rfl, rfl⟩

/-- **A wallet call that has its stages.** -/
theorem invoke_go (audit : AuditContext) (h : Stages P i k req (audit.attempt.getD 1) pre mid post)
    (client : WalletClient) (env : Env) (hpre : pre w)
    (hshort : ∀ {w res}, pre w → res.status = .timeout → Q res w)
    (hres : ∀ {w n res}, post n w → w.Told n res → Q res w) :
    Go (stageRules P i k pre mid post) i (client.invoke env req audit) Q w := by
  have hpreStage : ∀ {w}, pre w → Stage pre mid post w := .inl
  have hpostStage : ∀ {w n}, post n w → Stage pre mid post w := fun hp => .inr (.inr ⟨_, hp⟩)
  refine Go.bind_iff.mpr ((stage_idle (Idle.tryAcquire client _) hpre h.pre_stable
    hpreStage).mono fun decision w hpre => ?_)
  split
  · exact hshort hpre rfl
  refine Go.bind_iff.mpr ((stage_idle Idle.now hpre h.pre_stable hpreStage).mono
    fun started w hpre => ?_)
  refine Go.bind_iff.mpr ((createWalletCall_go h client hpre).mono fun call w ⟨hmid, hnoted⟩ => ?_)
  -- the request is handed over, whether or not its row could be written
  have hhand : Go (stageRules P i k pre mid post) i
      (Action.handOver req (audit.attempt.getD 1) call) post w := by
    refine Go.request fun w₁ hr hs _ => ?_
    have hmid₁ : mid call w₁ := h.mid_stable call hr hmid
    have hrow : Journalled P w₁ ⟨req, audit.attempt.getD 1, call, i⟩ :=
      ⟨hr.later.notedAs hnoted, fun hP hnone => h.clear (hnone ▸ hmid₁) hP⟩
    have hpost := h.sent hmid₁
    exact ⟨⟨.hand _ rfl (h.handing hmid₁ hs) hrow, hpostStage hpost⟩, fun _ => hpost⟩
  refine Go.bind_iff.mpr (hhand.mono fun sent w hpost => ?_)
  have hreply : Go (stageRules P i k pre mid post) i (Action.awaitReply req sent)
      (fun res w' => post sent w' ∧ w'.Told sent res) w := by
    refine Go.lift fun w₁ hr hs c res w₂ hrun _ => ?_
    obtain ⟨rfl, htold⟩ := awaitReply_told hrun
    have hpost₁ : post sent w₁ := h.post_stable sent hr hpost
    exact ⟨⟨.idle (.refl w₁), hpostStage hpost₁⟩, fun _ => ⟨hpost₁, htold⟩⟩
  refine Go.bind_iff.mpr (hreply.mono fun res w hR => ?_)
  -- what is left notes the answer in the breaker and in the journal
  have hstable : Stable P i k fun w => post sent w ∧ w.Told sent res :=
    (h.post_stable sent).and (.of_later fun hl => hl.told)
  have hstage : ∀ {w}, post sent w ∧ w.Told sent res → Stage pre mid post w :=
    fun hR => hpostStage hR.1
  refine Go.bind_iff.mpr ((stage_idle Idle.now hR hstable hstage).mono fun ended w hR => ?_)
  refine Go.bind_iff.mpr ((stage_idle (Idle.record client _ _) hR hstable hstage).mono
    fun _ w hR => ?_)
  cases call with
  | none => exact hres hR.1 hR.2
  | some id =>
      exact Go.bind_iff.mpr ((stage_idle (Prog.Keeps.catching Same.refl _
        (Idle.journalAnswer client env _ id res _)) hR hstable hstage).mono
          fun _ w hR => hres hR.1 hR.2)

end Invoke

/-! ## A request that nobody used before -/

/-- A request that no job uses, and that is journalled and on the wire at most as a first
attempt. -/
structure World.Queueable (w : World) (q : Uuid) : Prop where
  serial : q.serial < w.serial
  jobs : ∀ j ∈ w.jobs, j.payload.requestUuid ≠ q
  wire : ∀ s ∈ w.wire, s.request.requestUuid = q → s.attempt = 1
  calls : ∀ c ∈ w.walletCalls, c.requestUuid = q →
    c.attempt = 1 ∧ ∃ s ∈ w.wire, s.request.requestUuid = q

/-- A request that nobody used may be queued. -/
theorem World.Queueable.of_not_known {q : Uuid} (hn : q.serial < w.serial)
    (hq : ¬ w.RequestKnown q) : w.Queueable q where
  serial := hn
  jobs j hj he := hq (.inr (.inr ⟨j, hj, he⟩))
  wire s hs he := absurd (.inl ⟨s, hs, he⟩) hq
  calls c hc he := absurd (.inr (.inl ⟨c, hc, he⟩)) hq

/-- Nobody else touches a request of call `i` that no job uses. -/
theorem queueable_stable {q : Uuid} (ho : q.owner = i) :
    Stable P i k fun w => w.Queueable q := by
  intro w w' hr h
  obtain ⟨hu, hj⟩ := hr.requests ho h.jobs
  refine ⟨Nat.lt_of_lt_of_le h.serial hr.later.serial, hj, fun s hs hq => h.wire s (hu.wire s hs hq) hq,
    fun c hc hq => ?_⟩
  obtain ⟨c₀, hc₀, hk⟩ := hu.calls c hc hq
  have hq₀ : c₀.requestUuid = c.requestUuid := congrArg (fun t => t.2.2.1) hk
  obtain ⟨ha, s, hs, hsq⟩ := h.calls c₀ hc₀ (hq₀.trans hq)
  exact ⟨(congrArg (fun t => t.2.2.2) hk).symm.trans ha, s, hr.later.mem_wire hs, hsq⟩

/-- A request of call `i` that nobody used stays unused. -/
theorem not_known_stable {q : Uuid} (ho : q.owner = i) :
    Stable P i k fun w => ¬ w.RequestKnown q := by
  intro w w' hr h hknown
  obtain ⟨hu, hj⟩ := hr.requests ho fun j hj he => h (.inr (.inr ⟨j, hj, he⟩))
  rcases hknown with ⟨s, hs, hq⟩ | ⟨c, hc, hq⟩ | ⟨j, hjm, hq⟩
  · exact h (.inl ⟨s, hu.wire s hs hq, hq⟩)
  · obtain ⟨c₀, hc₀, hk⟩ := hu.calls c hc hq
    exact h (.inr (.inl ⟨c₀, hc₀, (congrArg (fun t => t.2.2.1) hk).trans hq⟩))
  · exact hj j hjm hq

/-- A drawn identifier is new. -/
theorem newUuid_go {use : UuidUse} {R : World → Prop} (hR : R w) (hstable : Stable P i k R) :
    Walk P i k (Action.newUuid use) (fun q w' => R w' ∧ q.use = use ∧ q.owner = i ∧
      q.serial < w'.serial ∧ ¬ w'.RequestKnown q) w := by
  refine Go.request fun w₁ hr hs _ => ?_
  have hsame : Same w₁ { w₁ with serial := w₁.serial + 1 } :=
    { Same.refl w₁ with serial := Nat.le_succ _ }
  refine ⟨.idle hsame, fun _ => ⟨hstable hsame.rely (hstable hr hR), rfl, rfl, Nat.lt_succ_self _,
    fun hknown => Nat.lt_irrefl _ (hs.known (q := ⟨use, i, w₁.serial⟩) hknown)⟩⟩

/-- What a call knows, under the base facts `B`, about a request before it is handed over. -/
structure Unsent (B : World → Prop) (q : Uuid) (row : Option Nat) (w : World) : Prop where
  base : B w
  serial : q.serial < w.serial
  jobs : ∀ j ∈ w.jobs, j.payload.requestUuid ≠ q
  wire : ∀ s ∈ w.wire, s.request.requestUuid ≠ q
  calls : ∀ c ∈ w.walletCalls, c.requestUuid = q → c.attempt = 1 ∧ row.isSome = true

/-- The stages of the first call under a request. -/
theorem firstStages {req : WalletRequest} (ho : req.requestUuid.owner = i) {B : World → Prop}
    (hstable : Stable P i k B) (hcall : ∀ {w c}, B w → B (w.addWalletCall c))
    (hhand : ∀ {w s}, B w → B (w.hand s))
    (handing : ∀ {w n}, B w → req.requestUuid.serial < w.serial →
      (∀ s ∈ w.wire, s.request.requestUuid ≠ req.requestUuid) →
      (∀ j ∈ w.jobs, j.payload.requestUuid ≠ req.requestUuid) → Handing P i k w ⟨req, 1, n, i⟩) :
    Stages P i k req 1
      (fun w => B w ∧ req.requestUuid.serial < w.serial ∧ ¬ w.RequestKnown req.requestUuid)
      (Unsent B req.requestUuid) (fun _ w => B w ∧ w.Queueable req.requestUuid) where
  pre_stable w w' hr h := ⟨hstable hr h.1, Nat.lt_of_lt_of_le h.2.1 hr.later.serial,
    not_known_stable ho hr h.2.2⟩
  mid_stable n w w' hr h := by
    obtain ⟨hu, hj⟩ := hr.requests ho h.jobs
    refine ⟨hstable hr h.base, Nat.lt_of_lt_of_le h.serial hr.later.serial, hj,
      fun s hs hq => h.wire s (hu.wire s hs hq) hq, fun c hc hq => ?_⟩
    obtain ⟨c₀, hc₀, hk⟩ := hu.calls c hc hq
    obtain ⟨ha, hrow⟩ := h.calls c₀ hc₀ ((congrArg (fun t => t.2.2.1) hk).trans hq)
    exact ⟨(congrArg (fun t => t.2.2.2) hk).symm.trans ha, hrow⟩
  post_stable n w w' hr h := ⟨hstable hr h.1, queueable_stable ho hr h.2⟩
  call {w c} h _ hq ha := .first (hq ▸ ho) (hq ▸ h.2.2) ha (hq ▸ h.2.1)
  journal {w c} h hq ha := by
    refine ⟨hcall h.1, h.2.1, fun j hj he => h.2.2 (.inr (.inr ⟨j, hj, he⟩)),
      fun s hs he => h.2.2 (.inl ⟨s, hs, he⟩), fun c' hc' he => ?_⟩
    rcases List.mem_append.mp hc' with hc' | hc'
    · exact absurd (.inr (.inl ⟨c', hc', he⟩)) h.2.2
    · obtain rfl := List.mem_singleton.mp hc'
      exact ⟨ha, rfl⟩
  skip {w} h _ := ⟨h.1, h.2.1, fun j hj he => h.2.2 (.inr (.inr ⟨j, hj, he⟩)),
    fun s hs he => h.2.2 (.inl ⟨s, hs, he⟩), fun c hc he => absurd (.inr (.inl ⟨c, hc, he⟩)) h.2.2⟩
  handing h _ := handing h.base h.serial h.wire h.jobs
  clear h _ c hc hq := nomatch (h.calls c hc hq).2
  sent {w n} h := by
    have hlast : (⟨req, 1, n, i⟩ : Sent) ∈ (w.hand ⟨req, 1, n, i⟩).wire :=
      List.mem_append_right _ (List.mem_singleton.mpr rfl)
    refine ⟨hhand h.base, h.serial, h.jobs, fun s hs hq => ?_, fun c hc hq =>
      ⟨(h.calls c hc hq).1, _, hlast, rfl⟩⟩
    rcases List.mem_append.mp hs with hs | hs
    · exact absurd hq (h.wire s hs)
    · obtain rfl := List.mem_singleton.mp hs
      rfl

/-- **The first call under a request**: afterwards the request may be queued. -/
theorem invoke_first_go {req : WalletRequest} {audit : AuditContext} (client : WalletClient)
    (env : Env) (haudit : audit.attempt = none) (ho : req.requestUuid.owner = i)
    (hn : req.requestUuid.serial < w.serial) (hq : ¬ w.RequestKnown req.requestUuid)
    {B : World → Prop} (hB : B w)
    (hstable : Stable P i k B) (hcall : ∀ {w c}, B w → B (w.addWalletCall c))
    (hhand : ∀ {w s}, B w → B (w.hand s))
    (handing : ∀ {w n}, B w → req.requestUuid.serial < w.serial →
      (∀ s ∈ w.wire, s.request.requestUuid ≠ req.requestUuid) →
      (∀ j ∈ w.jobs, j.payload.requestUuid ≠ req.requestUuid) → Handing P i k w ⟨req, 1, n, i⟩) :
    Walk P i k (client.invoke env req audit) (fun _ w' => B w' ∧ w'.Queueable req.requestUuid) w := by
  have hstages := firstStages (P := P) (k := k) ho hstable hcall hhand handing
  have hattempt : audit.attempt.getD 1 = 1 := by rw [haudit]; rfl
  refine (invoke_go audit (hattempt ▸ hstages) client env ⟨hB, hn, hq⟩ ?_ ?_).mono_guar And.left
  · exact fun h _ => ⟨h.1, .of_not_known h.2.1 h.2.2⟩
  · exact fun h _ => h

end YantraRgs
