import YantraRgs.Properties.Runs

/-! # A refunded stake never also wins

No bet has both a win and a rollback issued for it, handed to the wallet or queued. A start voids the
rounds that were left without an outcome and refunds their accepted bets; a win may have been issued
for one of these when a cash-out found the outcome in the engine's memory before it was stored.

* **`World.Issues`**, **`NeverBoth`** — what is issued for a stake, and the property.
* **`RefundsUnpaid`** — the condition on the runs.
* **`Exclusive`** — the invariant: a win is issued for a stake that was taken, a rollback for a bet
  that was rejected or voided.
* **`never_both`** — the property in every state reached; `both_issued` — a run in which the engine's
  process ends between a cash-out and the write of the outcome. -/

namespace YantraRgs

open Await

variable {env : Env} {P : Policy} {i : Nat} {k : Call} {w w' : World} {p q : State}
variable {endpoint : WalletEndpoint} {stake : Uuid}

/-- A wallet call about a stake was issued: handed to the wallet or queued. -/
def World.Issues (w : World) (endpoint : WalletEndpoint) (stake : Uuid) : Prop :=
  (∃ s ∈ w.wire, s.request.endpoint = endpoint ∧
    s.request.referenceTransactionUuid = some stake) ∨
  ∃ j ∈ w.jobs, j.endpoint = endpoint ∧ j.payload.referenceTransactionUuid = some stake

/-- **No bet has both a win and a rollback issued.** -/
def NeverBoth (w : World) : Prop :=
  ∀ b ∈ w.bets, ¬ (w.Issues .win b.betTransactionUuid ∧ w.Issues .rollback b.betTransactionUuid)

/-- **One engine per key, and whenever one is started, no win was issued for an accepted bet of an
unsettled round of its key without an outcome.** -/
def RefundsUnpaid (p : State) (x : Happening) (_ : State) : Prop :=
  OneEngine p x ∧ ∀ e ∈ started? x, ∀ b ∈ p.world.bets, b.status = .accepted →
    ∀ r ∈ p.world.rounds[b.roundId]?, r.stuck e.key = true → r.outcome = none →
      ¬ p.world.Issues .win b.betTransactionUuid

/-- The policy of such runs. -/
def Policy.unpaidRefunds (env : Env) : Policy :=
  { Policy.free env with oneEngine := True, unpaid := True }

/-- A win that was handed out was issued. -/
theorem World.HandedOut.issues {credit : Uuid} (h : w.HandedOut stake credit) :
    w.Issues .win stake := by
  rcases h with ⟨s, hs, he, hr, -⟩ | ⟨j, hj, he, hr, -⟩
  · exact .inl ⟨s, hs, he, hr⟩
  · exact .inr ⟨j, hj, he, hr⟩

theorem refundsUnpaid_meets : Meets (.unpaidRefunds env) RefundsUnpaid where
  permit _ _ := .of_free (fun h => h) (fun h => h) (fun h => h) fun h => h
  engines _ {_ _ _} h := h.1 _ rfl
  countedUp _ h := h.elim
  fit h := ⟨fun _ hD => hD.elim, fun _ _ _ b r hst hout hacc _ hu =>
    h.2 _ rfl b (List.mem_of_getElem? hst.bet) hacc r hst.round hst.stuck hout hu.issues⟩
  closed _ h := h.elim
  crashes h := h.elim
  configs h := h.elim
  verifies h := h.elim
  focus _ _ h := nomatch h

/-! ## The invariant -/

/-- A bet whose stake goes back: it was rejected or voided. -/
def BetStatus.returned (s : BetStatus) : Prop := s = .rejected ∨ s = .voided

/-- **What is issued for a stake.** -/
structure Exclusive (w : World) : Prop where
  /-- A win names its transaction. -/
  named : ∀ s ∈ w.wire, s.request.endpoint = .win → ∃ u, s.request.transactionUuid = some u
  won : ∀ {stake : Uuid}, w.Issues .win stake →
    ∃ b ∈ w.bets, b.betTransactionUuid = stake ∧ b.status.taken = true
  refunded : ∀ {stake : Uuid}, w.Issues .rollback stake →
    ∃ b ∈ w.bets, b.betTransactionUuid = stake ∧ b.status.returned
  apart : ∀ {stake : Uuid}, w.Issues .win stake → ¬ w.Issues .rollback stake

/-- The win that was issued was handed out under its transaction. -/
theorem Exclusive.handedOut (h : Exclusive w) (hi : w.Issues .win stake) :
    ∃ u, w.HandedOut stake u := by
  rcases hi with ⟨s, hs, he, hr⟩ | ⟨j, hj, he, hr⟩
  · obtain ⟨u, hu⟩ := h.named s hs he
    exact ⟨u, .inl ⟨s, hs, he, hr, hu⟩⟩
  · exact ⟨_, .inr ⟨j, hj, he, hr, rfl⟩⟩

/-- **What an action may issue**: a win for a bet whose stake was taken, or a rollback for one that
was rejected or voided, for which no win was handed out. -/
inductive Issuing (P : Policy) (w : World) (stake : Uuid) : WalletEndpoint → Prop
  | win (b : Bet) (hb : b ∈ w.bets) (hu : b.betTransactionUuid = stake)
      (ht : b.status.taken = true) (hv : P.oneEngine → b.status ≠ .voided) :
      Issuing P w stake .win
  | rollback (b : Bet) (hb : b ∈ w.bets) (hu : b.betTransactionUuid = stake)
      (hr : b.status = .rejected ∨ (P.oneEngine → b.status = .voided ∧
        (P.unpaid → ∀ u, ¬ w.HandedOut stake u))) : Issuing P w stake .rollback

/-- Whatever is issued was issued before, or is issued by this action for a reason. -/
theorem Move.issues (h : Move P i k w w') (hi : w'.Issues endpoint stake)
    (he : endpoint = .win ∨ endpoint = .rollback) :
    w.Issues endpoint stake ∨ Issuing P w stake endpoint := by
  rcases hi with ⟨s, hs, hend, href⟩ | ⟨j, hj, hend, href⟩
  · rcases h.wire_origin hs with hs | ⟨-, -, hh, -⟩
    · exact .inl (.inl ⟨s, hs, hend, href⟩)
    · cases hh with
      | stake b _ _ _ hbet =>
          rw [hend] at hbet
          subst hbet
          rcases he with he | he <;> cases he
      | credit b hb ht hv _ hwin hb' =>
          rw [hend] at hwin
          subst hwin
          rw [href] at hb'
          exact .inr (.win b hb (Option.some.inj hb').symm ht hv)
      | job j hj hreq _ =>
          -- a job that is run was issued when it was queued
          obtain ⟨-, hjend, hrest⟩ := PendingWalletJob.request_fields hreq
          have hje : j.endpoint = endpoint := hjend.symm.trans hend
          exact .inl (.inr ⟨j, hj.1, hje, (hrest (hje ▸ he)).1.symm.trans href⟩)
  · obtain ⟨n, hn⟩ := List.mem_iff_getElem?.mp hj
    rcases h.job_origin hn with ⟨y, hy, rfl | hs⟩ | ⟨-, hnew⟩
    · exact .inl (.inr ⟨_, List.mem_of_getElem? hy, hend, href⟩)
    · have hyend : j.endpoint = y.endpoint := congrArg (fun t => t.2.1) hs.later.identity
      exact .inl (.inr ⟨y, List.mem_of_getElem? hy, hyend.symm.trans hend,
        hs.later.payload ▸ href⟩)
    · obtain ⟨_, b, -, hb, hb', -, hp⟩ := hnew.bet
      have hstake : b.betTransactionUuid = stake := by
        rw [href] at hb'
        exact (Option.some.inj hb').symm
      have hmem : b ∈ w.bets := List.mem_of_getElem? hb
      cases hp with
      | refund hjend _ hr =>
          rw [hend] at hjend
          subst hjend
          exact .inr (.rollback b hmem hstake (hstake ▸ hr))
      | credit hjend ht hv =>
          rw [hend] at hjend
          subst hjend
          exact .inr (.win b hmem hstake ht hv)

/-- A bet whose stake goes back stays so. -/
theorem BetStep.returned {b b' : Bet} (h : BetStep P i k w b b') (hP : P.oneEngine)
    (hb : b.status.returned) : b'.status.returned := by
  have htaken : b.status.taken = true → b.status ≠ .voided → False := by
    rintro ht hv
    rcases hb with hb | hb
    · rw [hb] at ht
      cases ht
    · exact hv hb
  cases h with
  | accept _ hp => rcases hb with hb | hb <;> rw [hb] at hp <;> cases hp
  | reject => exact .inl rfl
  | lose _ _ ht hv => exact (htaken ht (hv hP)).elim
  | win _ _ _ ht hv => exact (htaken ht (hv hP)).elim
  | fail _ ht hv => exact (htaken ht (hv hP)).elim
  | cashOut _ _ _ _ _ _ _ ht hv => exact (htaken ht (hv hP)).elim
  | void => exact .inr rfl

theorem Move.returned (h : Move P i k w w') (hP : P.oneEngine)
    (hb : ∃ b ∈ w.bets, b.betTransactionUuid = stake ∧ b.status.returned) :
    ∃ b ∈ w'.bets, b.betTransactionUuid = stake ∧ b.status.returned := by
  obtain ⟨b, hb, hu, hr⟩ := hb
  obtain ⟨n, hn⟩ := List.mem_iff_getElem?.mp hb
  obtain ⟨b', hb', hl⟩ := h.later.bet hn
  refine ⟨b', List.mem_of_getElem? hb', hl.betTransactionUuid.trans hu, ?_⟩
  rcases h.bet_origin hb' with ⟨b₀, hb₀, rfl | ⟨hs, -⟩⟩ | ⟨rfl, -⟩
  · exact Option.some.inj (hn.symm.trans hb₀) ▸ hr
  · obtain rfl := Option.some.inj (hn.symm.trans hb₀)
    exact hs.returned hP hr
  · simp at hn

/-- One bet has a stake. -/
theorem Sound.bet_of_stake (hs : Sound P w) {b b' : Bet} (hb : b ∈ w.bets) (hb' : b' ∈ w.bets)
    (hu : b.betTransactionUuid = b'.betTransactionUuid) : b = b' := by
  obtain ⟨n, hn⟩ := List.mem_iff_getElem?.mp hb
  obtain ⟨n', hn'⟩ := List.mem_iff_getElem?.mp hb'
  obtain rfl := hs.betOwner hn hn' (congrArg Uuid.owner hu)
  exact Option.some.inj (hn.symm.trans hn')

/-- **Every action keeps the invariant.** -/
theorem Exclusive.move (h : Exclusive w) (hs : Sound P w) (hm : Move P i k w w')
    (hP : P.oneEngine) (hU : P.unpaid) : Exclusive w' where
  named s hs' he := by
    rcases hm.wire_origin hs' with hs' | ⟨-, -, hh, -⟩
    · exact h.named s hs' he
    · cases hh with
      | stake b _ _ _ hbet => rw [he] at hbet; cases hbet
      | credit b _ _ _ _ _ _ u hu => exact ⟨u, hu⟩
      | job j _ hreq _ =>
          obtain ⟨-, hend, hrest⟩ := PendingWalletJob.request_fields hreq
          exact ⟨_, (hrest (.inl (hend.symm.trans he))).2⟩
  won hi := by
    have hkeep : ∀ {stake : Uuid}, (∃ b ∈ w.bets, b.betTransactionUuid = stake ∧
        b.status.taken = true) → ∃ b ∈ w'.bets, b.betTransactionUuid = stake ∧
          b.status.taken = true := by
      rintro stake ⟨b, hb, hu, ht⟩
      obtain ⟨b', hb', hl⟩ := hm.later.mem_bets hb
      exact ⟨b', hb', hl.betTransactionUuid.trans hu, hl.taken ht⟩
    rcases hm.issues hi (.inl rfl) with hi | hnew
    · exact hkeep (h.won hi)
    · cases hnew with
      | win b hb hu ht => exact hkeep ⟨b, hb, hu, ht⟩
  refunded hi := by
    rcases hm.issues hi (.inr rfl) with hi | hnew
    · exact hm.returned hP (h.refunded hi)
    · cases hnew with
      | rollback b hb hu hr => exact hm.returned hP ⟨b, hb, hu, hr.imp_right fun hr => (hr hP).1⟩
  apart {stake} hwin hback := by
    -- a win is issued for a bet whose stake was taken and does not go back
    have hnew : Issuing P w stake .win → (∃ b ∈ w.bets, b.betTransactionUuid = stake ∧
        b.status.returned) → False := by
      rintro (⟨b, hb, hu, ht, hv⟩) ⟨b', hb', hu', hr⟩
      obtain rfl := hs.bet_of_stake hb hb' (hu.trans hu'.symm)
      rcases hr with hr | hr
      · rw [hr] at ht
        cases ht
      · exact hv hP hr
    rcases hm.issues hwin (.inl rfl) with hwin | hwin <;>
      rcases hm.issues hback (.inr rfl) with hback | hback
    · exact h.apart hwin hback
    · cases hback with
      | rollback b hb hu hr =>
          rcases hr with hr | hr
          · -- a bet that was rejected has not won
            obtain ⟨b', hb', hu', ht⟩ := h.won hwin
            obtain rfl := hs.bet_of_stake hb hb' (hu.trans hu'.symm)
            rw [hr] at ht
            cases ht
          · obtain ⟨u, hout⟩ := h.handedOut hwin
            exact (hr hP).2 hU u hout
    · exact hnew hwin (h.refunded hback)
    · cases hback with
      | rollback b hb hu hr =>
          exact hnew hwin ⟨b, hb, hu, hr.imp_right fun hr => (hr hP).1⟩

/-- The invariant is about the bets, the wire and the jobs alone. -/
theorem Exclusive.congr (h : Exclusive w) (hb : w'.bets = w.bets) (hw : w'.wire = w.wire)
    (hj : w'.jobs = w.jobs) : Exclusive w' := by
  have hi : ∀ {endpoint stake}, w'.Issues endpoint stake → w.Issues endpoint stake := by
    intro endpoint stake hi
    simpa only [World.Issues, hw, hj] using hi
  exact ⟨fun s hs => h.named s (hw ▸ hs), fun h' => hb ▸ h.won (hi h'),
    fun h' => hb ▸ h.refunded (hi h'), fun h' h'' => h.apart (hi h') (hi h'')⟩

/-- Nothing is issued before anything happened. -/
theorem Exclusive.initial (operators : List OperatorRow) (credentials : List OperatorCredential)
    (gameConfigs : List OperatorGameConfig) :
    Exclusive (State.initial operators credentials gameConfigs).world := by
  have hnone : ∀ {endpoint stake},
      ¬ (State.initial operators credentials gameConfigs).world.Issues endpoint stake := by
    rintro endpoint stake (⟨s, hs, -⟩ | ⟨j, hj, -⟩)
    · cases hs
    · cases hj
  exact ⟨fun _ hs => (nomatch hs), fun hi => (hnone hi).elim, fun hi => (hnone hi).elim,
    fun hi => (hnone hi).elim⟩

/-! ## Runs -/

/-- **A refunded stake never also wins.** In every run of any calls in any order, with crashes
anywhere, in which engines of one key do not run together and no engine is started while a win was
issued for an accepted bet whose round it will void: no bet has both a win and a rollback issued. -/
theorem never_both (h : History env RefundsUnpaid p) : NeverBoth p.world := by
  refine fun b _ hi => (History.invariant (J := fun p => Exclusive p.world) refundsUnpaid_meets h
    Exclusive.initial fun p x q _ _ hs _ hx hJ => ?_).2.apart hi.1 hi.2
  cases hx with
  | move i c t _ _ _ _ hm => exact hJ.move hs hm trivial trivial
  | outer y _ hy =>
      exact hJ.congr (outside_outer hy).bets (outside_outer hy).wire (outside_outer hy).jobs
  | stay hw => exact hw ▸ hJ

/-! ## Two runs -/

instance (w : World) (endpoint : WalletEndpoint) (stake : Uuid) :
    Decidable (w.Issues endpoint stake) :=
  inferInstanceAs (Decidable ((∃ s ∈ w.wire, s.request.endpoint = endpoint ∧
    s.request.referenceTransactionUuid = some stake) ∨
    ∃ j ∈ w.jobs, j.endpoint = endpoint ∧ j.payload.referenceTransactionUuid = some stake))

instance (p : State) (x : Happening) (q : State) : Decidable (RefundsUnpaid p x q) :=
  inferInstanceAs (Decidable (OneEngine p x ∧ ∀ e ∈ started? x, ∀ b ∈ p.world.bets,
    b.status = .accepted → ∀ r ∈ p.world.rounds[b.roundId]?, r.stuck e.key = true →
      r.outcome = none → ¬ p.world.Issues .win b.betTransactionUuid))

namespace Sample

/-- The engine of the live game stops and is made again; its start, call `i`, voids round 0 with its
only bet and queues the rollback. -/
def voided (i : Nat) : List Happening :=
  [.env (.die (engine 1 0)), .env (.boot ⟨0, 1, 0⟩ cfg (.dice 1 1)), .call (.start (engine 1 1)),
    .run i .ok, .run i (.order [0]), .run i .ok, .run i (.order [0])] ++ run i 5

/-- The round of the live game takes off in memory, and ann's bet is cashed out (call 4) before the
outcome is stored; the operator credits the win. -/
def cashedEarly : List Happening :=
  opened 1 (.liveCrash 0 none) .none 12 ++ run 1 3 ++ .env (.elapse 500) ::
    .call (.cashOut (engine 1 0) ⟨1, 0, 0, 0, none, .manual, none⟩) :: run 4 11 ++
    [.env (.deliver 1 ⟨true, .ok, some 105⟩ none), .run 4 (.reply 1)]

/-- The job runner (call 6) hands over the rollback. -/
def rolledBack : List Happening := .call .tick :: .run 6 (.order [0]) :: run 6 8

end Sample

/-- A bet of a round without an outcome is refunded, and has no win. -/
theorem never_both_voided : ∃ p, History Sample.site RefundsUnpaid p ∧
    (∃ b ∈ p.world.bets, p.world.Issues .rollback b.betTransactionUuid) ∧ NeverBoth p.world := by
  have h : Sample.shows RefundsUnpaid
      (Sample.opened 1 (.liveCrash 0 none) .none 12 ++ Sample.voided 4) (fun p =>
        decide (∃ b ∈ p.world.bets, p.world.Issues .rollback b.betTransactionUuid)) = true := by
    decide +kernel
  obtain ⟨p, hp, hv⟩ := Sample.history_of_shows h
  exact ⟨p, hp, of_decide_eq_true hv, never_both hp⟩

/-- **A refunded stake that won**: the engine's process ends between the cash-out of a bet and the
write of the outcome, and the next start voids the round. Both calls are handed to the wallet. -/
theorem both_issued : ∃ p, History Sample.site Anything p ∧
    (∃ s ∈ p.world.wire, s.request.endpoint = .rollback) ∧ ¬ NeverBoth p.world := by
  have h : Sample.shows Anything (Sample.cashedEarly ++ Sample.voided 5 ++ Sample.rolledBack)
      (fun p => decide (∃ s ∈ p.world.wire, s.request.endpoint = .rollback) &&
        p.world.bets.any fun b => decide (p.world.Issues .win b.betTransactionUuid) &&
          decide (p.world.Issues .rollback b.betTransactionUuid)) = true := by decide +kernel
  obtain ⟨p, hp, hv⟩ := Sample.history_of_shows h
  simp only [Bool.and_eq_true, decide_eq_true_eq, List.any_eq_true] at hv
  obtain ⟨hback, b, hb, hi⟩ := hv
  exact ⟨p, hp, hback, fun hall => hall b hb hi⟩

end YantraRgs
