import YantraRgs.Properties.Runs

/-! # The payout paths agree

A bet is paid by a cash-out, by settling its round, or by resuming it. Each of them reads the
configuration from the memory of the engine it runs in, and the last two the commission as well, whatever
the bet was placed under.

* **`PayoutsAgree`** — every result and every credit is what the game makes of the bet, under the
  commission noted on it and the configuration that its round was created under.
* **`Unchanged`** — the condition on the runs.
* **`payouts_agree`** — the property in every state reached; `payout_changed` — a run in which the
  configuration changes between the bet and its settlement. -/

namespace YantraRgs

open Await

variable {env : Env} {P : Policy} {i : Nat} {k : Call} {w w' : World} {p q : State}

/-- A credit of a bet that pays what the bet is due. -/
def World.Pays (env : Env) (w : World) (stake : Option Uuid) (amountMicro : Option Int) : Prop :=
  ∃ b ∈ w.bets, stake = some b.betTransactionUuid ∧
    ∃ payoutMicro, amountMicro = some payoutMicro ∧ w.Due env b payoutMicro

/-- **What became of a bet is what the game makes of it**: under the configuration that its round was
created under and the commission noted on it. -/
structure Rightly (env : Env) (w : World) (b : Bet) : Prop where
  lost : b.won = some false → w.Loses env b
  earned : b.won = some true → b.cashoutPayoutMicro = none →
    ∃ payoutMicro, b.wonAmountMicro = some payoutMicro ∧ w.Earns env b payoutMicro
  won : b.won = some true →
    ∃ payoutMicro, b.wonAmountMicro = some payoutMicro ∧ w.Due env b payoutMicro
  cashed : ∀ payoutMicro, b.cashoutPayoutMicro = some payoutMicro →
    ∃ elapsedMs multiplier, b.cashoutElapsedMs = some elapsedMs ∧
      b.cashoutMultiplier = some multiplier ∧ w.CashesOut env b elapsedMs multiplier payoutMicro

/-- **Every result and every credit is what the game makes of the bet.** -/
structure PayoutsAgree (env : Env) (w : World) : Prop where
  bets : ∀ b ∈ w.bets, Rightly env w b
  sent : ∀ s ∈ w.wire, s.request.endpoint = .win →
    w.Pays env s.request.referenceTransactionUuid s.request.amountMicro
  queued : ∀ j ∈ w.jobs, j.endpoint = .win →
    w.Pays env j.payload.referenceTransactionUuid j.payload.amountMicro

/-- **One engine per key, and whenever a call acts in an engine, the engine holds the configuration that
the rounds of the bets were created under and, where it settles them, the commission noted on them.** -/
def Unchanged (p : State) (x : Happening) (_ : State) : Prop :=
  OneEngine p x ∧ ∀ i ∈ ran? x, ∀ t ∈ p.tasks[i]?, p.world.Priced t.call

/-- The policy of such runs. -/
def Policy.unchanged (env : Env) : Policy :=
  { Policy.free env with oneEngine := True, priced := True }

theorem unchanged_meets : Meets (.unchanged env) Unchanged where
  permit h ht :=
    { accepted := fun h => h.elim
      voided := fun h => h.elim
      locked := fun h => h.elim
      journalled := fun h => h.elim
      redrawn := fun h => h.elim
      priced := fun _ => h.2 _ rfl _ ht }
  engines _ {_ _ _} h := h.1 _ rfl
  countedUp _ h := h.elim
  fit _ := ⟨fun _ h => h.elim, fun _ h => h.elim⟩
  closed _ h := h.elim
  crashes h := h.elim
  configs h := h.elim
  verifies h := h.elim
  focus _ _ h := nomatch h

/-! ## The property is kept -/

/-- A credit pays what its bet is due as long as the rounds keep their outcomes. -/
theorem World.Pays.later {stake : Option Uuid} {amountMicro : Option Int}
    (h : w.Pays env stake amountMicro) (hl : Later w w') (ho : w.KeepsOutcomes w') :
    w'.Pays env stake amountMicro := by
  obtain ⟨b, hb, hstake, payoutMicro, hamount, hdue⟩ := h
  obtain ⟨b', hb', hbl⟩ := hl.mem_bets hb
  refine ⟨b', hb', ?_, payoutMicro, hamount, hdue.later hl ho hbl.terms hbl.roundId⟩
  rw [hstake, hbl.betTransactionUuid]

/-- The credit of a job is that of its payload. -/
theorem PendingWalletJob.request_amount {j : PendingWalletJob} {req : WalletRequest}
    (h : j.request = some req) (he : j.endpoint = .win) : req.amountMicro = j.payload.amountMicro := by
  unfold PendingWalletJob.request at h
  split at h <;> simp_all
  subst h
  rfl

/-- What became of a bet rightly stays so, also when it is written in other columns. -/
theorem Rightly.later {b b' : Bet} (h : Rightly env w b) (hl : Later w w') (ho : w.KeepsOutcomes w')
    (hterms : b'.terms = b.terms) (hround : b'.roundId = b.roundId) (hwon : b'.won = b.won)
    (hamount : b'.wonAmountMicro = b.wonAmountMicro)
    (hpayout : b'.cashoutPayoutMicro = b.cashoutPayoutMicro)
    (hms : b'.cashoutElapsedMs = b.cashoutElapsedMs)
    (hm : b'.cashoutMultiplier = b.cashoutMultiplier) : Rightly env w' b' where
  lost hw := (h.lost (hwon ▸ hw)).later hl ho hterms hround
  earned hw hc := by
    obtain ⟨payoutMicro, hpays, hearns⟩ := h.earned (hwon ▸ hw) (hpayout ▸ hc)
    exact ⟨payoutMicro, hamount.trans hpays, hearns.later hl ho hterms hround⟩
  won hw := by
    obtain ⟨payoutMicro, hpays, hdue⟩ := h.won (hwon ▸ hw)
    exact ⟨payoutMicro, hamount.trans hpays, hdue.later hl ho hterms hround⟩
  cashed payoutMicro hp := by
    obtain ⟨elapsedMs, multiplier, hms', hm', hcashes⟩ := h.cashed payoutMicro (hpayout ▸ hp)
    exact ⟨elapsedMs, multiplier, hms.trans hms', hm.trans hm', hcashes.later hl ho hterms hround⟩

/-- What a bet that is not cashed out now was cashed out for. -/
theorem Rightly.cashed_of {b b' : Bet} (h : Rightly env w b) (hterms : b'.terms = b.terms)
    (hround : b'.roundId = b.roundId) (hpayout : b'.cashoutPayoutMicro = b.cashoutPayoutMicro)
    (hms : b'.cashoutElapsedMs = b.cashoutElapsedMs)
    (hm : b'.cashoutMultiplier = b.cashoutMultiplier) (payoutMicro : Int)
    (hp : b'.cashoutPayoutMicro = some payoutMicro) :
    ∃ elapsedMs multiplier, b'.cashoutElapsedMs = some elapsedMs ∧
      b'.cashoutMultiplier = some multiplier ∧ w.CashesOut env b' elapsedMs multiplier payoutMicro := by
  obtain ⟨elapsedMs, multiplier, hms', hm', hcashes⟩ := h.cashed payoutMicro (hpayout ▸ hp)
  exact ⟨elapsedMs, multiplier, hms.trans hms', hm.trans hm',
    hcashes.later (.refl w) (.of_eq rfl) hterms hround⟩

/-- **Every write of a bet is right.** -/
theorem BetStep.rightly {b b' : Bet} (h : BetStep P i k w b b') (hP : P.oneEngine) (hC : P.priced)
    (hb : Rightly P.env w b) : Rightly P.env w b' := by
  have hkept : w.KeepsOutcomes w := .of_eq rfl
  cases h with
  | accept | reject | fail | void => exact hb.later (.refl w) hkept rfl rfl rfl rfl rfl rfl rfl
  | lose now hk ht hv hd =>
      refine ⟨fun _ => (hd hP hC).later (.refl w) hkept rfl rfl, fun hw => ?_, fun hw => ?_,
        hb.cashed_of rfl rfl rfl rfl rfl⟩
      · cases hw
      · cases hw
  | win payoutMicro u now ht hv hu hd =>
      have hearns : w.Earns P.env (b.win payoutMicro u now) payoutMicro :=
        (hd hP hC).later (.refl w) hkept rfl rfl
      refine ⟨fun hw => ?_, fun _ _ => ⟨payoutMicro, rfl, hearns⟩,
        fun _ => ⟨payoutMicro, rfl, .inl hearns⟩, hb.cashed_of rfl rfl rfl rfl rfl⟩
      cases hw
  | cashOut mode m ms payoutMicro u status now ht hv hs hu hd =>
      have hcashes : w.CashesOut P.env (b.cashOut mode m ms payoutMicro u status now) ms m payoutMicro :=
        (hd hP hC).later (.refl w) hkept rfl rfl
      refine ⟨fun hw => ?_, fun _ hc => ?_, fun _ => ⟨payoutMicro, rfl, .inr ⟨ms, m, hcashes⟩⟩,
        fun payoutMicro' hp => ?_⟩
      · cases hw
      · cases hc
      · obtain rfl := Option.some.inj hp
        exact ⟨ms, m, rfl, rfl, hcashes⟩

/-- A bet that is new has no result. -/
theorem NewBet.rightly {b : Bet} (h : NewBet i k w b) : Rightly env w' b where
  lost hw := by
    rw [h.undecided] at hw
    cases hw
  earned hw _ := by
    rw [h.undecided] at hw
    cases hw
  won hw := by
    rw [h.undecided] at hw
    cases hw
  cashed payoutMicro hp := by
    rw [h.uncashed] at hp
    cases hp

/-- **Every action keeps to the payouts.** -/
theorem PayoutsAgree.move (h : PayoutsAgree P.env w) (hm : Move P i k w w') (hP : P.oneEngine)
    (hC : P.priced) : PayoutsAgree P.env w' where
  bets b' hb' := by
    have hl := hm.later
    have ho := outcomes_rely hm hP
    obtain ⟨n, hn⟩ := List.mem_iff_getElem?.mp hb'
    rcases hm.bet_origin hn with ⟨b, hb, rfl | ⟨hs, -⟩⟩ | ⟨-, hnew⟩
    · exact (h.bets _ (List.mem_of_getElem? hb)).later hl ho rfl rfl rfl rfl rfl rfl rfl
    · exact (hs.rightly hP hC (h.bets _ (List.mem_of_getElem? hb))).later hl ho rfl rfl rfl rfl rfl
        rfl rfl
    · exact hnew.rightly
  sent s hs he := by
    have hl := hm.later
    have ho := outcomes_rely hm hP
    rcases hm.wire_origin hs with hs | ⟨-, -, hh, -⟩
    · exact (h.sent s hs he).later hl ho
    · cases hh with
      | stake b _ _ _ hbet =>
          rw [he] at hbet
          cases hbet
      | credit b hb _ _ _ _ hstake u _ _ _ _ _ _ _ hp =>
          obtain ⟨payoutMicro, hamount, hdue⟩ := hp hP hC
          exact World.Pays.later ⟨b, hb, hstake, payoutMicro, hamount, hdue⟩ hl ho
      | job j hj hreq _ =>
          -- a credit that is sent again was queued before
          obtain ⟨-, hend, hrest⟩ := PendingWalletJob.request_fields hreq
          have hje : j.endpoint = .win := hend.symm.trans he
          rw [(hrest (.inl hje)).1, PendingWalletJob.request_amount hreq hje]
          exact (h.queued j hj.1 hje).later hl ho
  queued j' hj' he := by
    have hl := hm.later
    have ho := outcomes_rely hm hP
    obtain ⟨n, hn⟩ := List.mem_iff_getElem?.mp hj'
    rcases hm.job_origin hn with ⟨j, hj, rfl | hs⟩ | ⟨-, hnew⟩
    · exact (h.queued _ (List.mem_of_getElem? hj) he).later hl ho
    · have hend : j'.endpoint = j.endpoint := congrArg (fun t => t.2.1) hs.later.identity
      rw [hs.later.payload]
      exact (h.queued j (List.mem_of_getElem? hj) (hend ▸ he)).later hl ho
    · obtain ⟨_, b, -, hb, hstake, -, hpurpose⟩ := hnew.bet
      cases hpurpose with
      | refund hback _ _ =>
          rw [he] at hback
          cases hback
      | credit _ _ _ _ _ hp =>
          obtain ⟨payoutMicro, hamount, hdue⟩ := hp hP hC
          exact World.Pays.later ⟨b, List.mem_of_getElem? hb, hstake, payoutMicro, hamount, hdue⟩ hl ho

theorem PayoutsAgree.congr (h : PayoutsAgree env w) (hl : Later w w') (hr : w'.rounds = w.rounds)
    (hb : w'.bets = w.bets) (hw : w'.wire = w.wire) (hj : w'.jobs = w.jobs) : PayoutsAgree env w' where
  bets b hmem := (h.bets b (hb ▸ hmem)).later hl (.of_eq hr) rfl rfl rfl rfl rfl rfl rfl
  sent s hs he := (h.sent s (hw ▸ hs) he).later hl (.of_eq hr)
  queued j hmem he := (h.queued j (hj ▸ hmem) he).later hl (.of_eq hr)

theorem PayoutsAgree.initial (operators : List OperatorRow) (credentials : List OperatorCredential)
    (gameConfigs : List OperatorGameConfig) :
    PayoutsAgree env (State.initial operators credentials gameConfigs).world where
  bets _ hb := by cases hb
  sent _ hs := by cases hs
  queued _ hj := by cases hj

/-! ## Runs -/

instance (w : World) (k : Call) : Decidable (w.Priced k) :=
  match k with
  | .start e => inferInstanceAs (Decidable (∀ engine ∈ w.engine? e, ∀ b ∈ w.bets,
      b.unresolved = true → ∀ r ∈ w.rounds[b.roundId]?, r.stuck e.key = true →
        r.createdUnder = some engine.gameConfig ∧ b.commissionMicro = engine.cfg.commissionMicro))
  | .iteration e _ => inferInstanceAs (Decidable (∀ engine ∈ w.engine? e, ∀ b ∈ w.bets,
      b.status.taken = true → (w.activeIds e).getLast? = some b.roundId →
        ∀ r ∈ w.rounds[b.roundId]?, r.createdUnder = some engine.gameConfig ∧
          (r.state.takesBets = false → b.commissionMicro = engine.cfg.commissionMicro)))
  | .cashOut e p => inferInstanceAs (Decidable (∀ engine ∈ w.engine? e, ∀ b ∈ w.bets[p.betId]?,
      b.status.taken = true → ∀ r ∈ w.rounds[b.roundId]?, r.createdUnder = some engine.gameConfig))
  | .placeBet _ _ | .tick | .createSession _ | .terminateSession _ _ _ | .rotateSeed _ _ _
  | .roundProof _ _ | .roundReplay _ _ | .disputePack _ _ => .isTrue trivial

instance (p : State) (x : Happening) (q : State) : Decidable (Unchanged p x q) :=
  inferInstanceAs (Decidable (OneEngine p x ∧ ∀ i ∈ ran? x, ∀ t ∈ p.tasks[i]?,
    p.world.Priced t.call))

namespace Sample

/-- The dice bet wins and is credited under the engine's configuration `cfg'`, which is changed when the
bet is accepted. -/
def credited (cfg' : EngineConfig) (payoutMicro : Int) : List Happening :=
  opened 0 (.dice .low) .none 13 ++ .env (.configure (engine 0 0) cfg' (.dice 1 1)) :: run 1 21 ++
    .env (.deliver 1 ⟨true, .ok, some (90 + payoutMicro)⟩ none) :: .run 1 (.reply 1) :: run 1 12

/-- The engine's configuration with a commission. -/
def commissioned : EngineConfig := { cfg with commissionMicro := 5 }

end Sample

end YantraRgs
