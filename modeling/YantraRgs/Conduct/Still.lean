import YantraRgs.Conduct.CashOut

/-! # What leaves the rounds alone

Lossless bets out and resolving them writes no round and makes none active.

* **`SameRounds`** — what such a program leaves alone; **`Lossless`**, **`Resolving`** — neither does it
  lose a bet, nor note a cash-out.
* **`Still`** — the programs, from the wallet call up to the poll of a flight and the bets of a
  round that is resumed. -/

namespace YantraRgs

open Await

variable {w w' : World} {env : Env} {e : EngineRef} {α : Type}

/-- **The rounds are left alone**, and so is what is tracked of the engines; nobody is answered. -/
structure SameRounds (w w' : World) : Prop where
  rounds : w'.rounds = w.rounds
  engines : w'.engines.map Engine.tracked = w.engines.map Engine.tracked
  answers : w'.answers = w.answers

theorem SameRounds.refl (w : World) : SameRounds w w := ⟨rfl, rfl, rfl⟩

/-- A bet that was lost before, at the same time and with the same cash-out. -/
structure Bet.StillLost (b b' : Bet) : Prop where
  won : b.won = some false
  settledAt : b'.settledAt = b.settledAt
  cashout : b'.cashoutPayoutMicro = b.cashoutPayoutMicro
  roundId : b'.roundId = b.roundId

theorem Bet.StillLost.refl {b : Bet} (h : b.won = some false) : b.StillLost b := ⟨h, rfl, rfl, rfl⟩

/-- **No bet is lost either**, and the round objects in the memory of the engines are left alone. -/
structure Lossless (w w' : World) : Prop extends SameRounds w w' where
  actives : w'.engines.map Engine.actives = w.engines.map Engine.actives
  lost : ∀ {n : Nat} {b' : Bet}, w'.bets[n]? = some b' → b'.won = some false →
    ∃ b, w.bets[n]? = some b ∧ b.StillLost b'

/-- **Nor is a cash-out noted.** -/
structure Resolving (w w' : World) : Prop extends Lossless w w' where
  rows : ∀ {n : Nat} {b : Bet}, w.bets[n]? = some b → ∃ b', w'.bets[n]? = some b' ∧
    b'.roundId = b.roundId ∧ b'.cashoutPayoutMicro = b.cashoutPayoutMicro

/-- **So are the bets left alone.** -/
structure SameBets (w w' : World) : Prop extends SameRounds w w' where
  bets : w'.bets = w.bets
  actives : w'.engines.map Engine.actives = w.engines.map Engine.actives

theorem SameBets.refl (w : World) : SameBets w w := ⟨.refl w, rfl, rfl⟩

theorem SameRounds.activeIds (h : SameRounds w w') (e : EngineRef) :
    w'.activeIds e = w.activeIds e := activeIds_of_tracked (tracked_engine h.engines e)

theorem Same.sameBets (h : Same w w') : SameBets w w' := ⟨⟨h.rounds, h.engines, h.answers⟩, h.bets, h.actives⟩

theorem SameBets.resolving (h : SameBets w w') : Resolving w w' where
  toSameRounds := h.toSameRounds
  actives := h.actives
  lost hb hlost := ⟨_, h.bets ▸ hb, .refl hlost⟩
  rows hb := ⟨_, h.bets.symm ▸ hb, rfl, rfl⟩

/-- A bet is written that is not lost thereby. -/
theorem Lossless.updateBet {id : Nat} {f : Bet → Bet}
    (hf : ∀ b, (f b).won = some false → b.StillLost (f b)) : Lossless w (w.updateBet id f) where
  toSameRounds := ⟨rfl, rfl, rfl⟩
  actives := rfl
  lost {n b'} hb hlost := by
    simp only [World.updateBet, List.getElem?_modify] at hb
    obtain ⟨b, hb₀, rfl⟩ := Option.map_eq_some_iff.mp hb
    refine ⟨b, hb₀, ?_⟩
    by_cases hid : id = n
    · simp only [if_pos hid] at hlost ⊢
      exact hf b hlost
    · simp only [if_neg hid] at hlost ⊢
      exact .refl hlost

/-- A bet is written that keeps its round and its cash-out. -/
theorem rows_updateBet (id : Nat) {n : Nat} {f : Bet → Bet} {b : Bet}
    (hf : ∀ b, (f b).roundId = b.roundId ∧ (f b).cashoutPayoutMicro = b.cashoutPayoutMicro)
    (hb : w.bets[n]? = some b) : ∃ b', (w.updateBet id f).bets[n]? = some b' ∧
      b'.roundId = b.roundId ∧ b'.cashoutPayoutMicro = b.cashoutPayoutMicro := by
  rw [World.updateBet, List.getElem?_modify, hb]
  by_cases hid : id = n
  · exact ⟨_, rfl, by simpa [hid] using hf b⟩
  · exact ⟨_, rfl, by simp [hid]⟩

/-- A bet is written that is not lost thereby, and whose cash-out stays. -/
theorem Resolving.updateBet {id : Nat} {f : Bet → Bet}
    (hf : ∀ b, (f b).won = some false → b.StillLost (f b))
    (hkept : ∀ b, (f b).roundId = b.roundId ∧ (f b).cashoutPayoutMicro = b.cashoutPayoutMicro) :
    Resolving w (w.updateBet id f) where
  toLossless := .updateBet hf
  rows := rows_updateBet id hkept

theorem Idle.sameBets {p : Action α} (hp : Idle p) : p.Keeps SameBets := hp.mono Same.sameBets

theorem Idle.resolving {p : Action α} (hp : Idle p) : p.Keeps Resolving :=
  hp.sameBets.mono SameBets.resolving

theorem Idle.lossless {p : Action α} (hp : Idle p) : p.Keeps Lossless :=
  hp.resolving.mono Resolving.toLossless

theorem Idle.still {p : Action α} (hp : Idle p) : p.Keeps SameRounds :=
  hp.sameBets.mono SameBets.toSameRounds

namespace Still

theorem modify {f : World → World} (h : ∀ w, SameRounds w (f w)) :
    (Prog.modify f : Action Unit).Keeps SameRounds := Prog.Keeps.modify h

theorem createWalletCall (row : WalletCall) :
    (Action.createWalletCall row).Keeps SameBets := by
  refine Prog.Keeps.lift fun i c w a w' h => ?_
  split at h <;> obtain rfl := congrArg Prod.snd (Option.some.inj h) <;> exact ⟨⟨rfl, rfl, rfl⟩, rfl, rfl⟩

theorem awaitReply (req : WalletRequest) (sent : Nat) :
    (Action.awaitReply req sent).Keeps SameBets := by
  refine Prog.Keeps.lift fun i c w a w' h => ?_
  obtain ⟨rfl, -⟩ := awaitReply_told h
  exact .refl w

theorem invoke (client : WalletClient) (env : Env) (req : WalletRequest) (audit : AuditContext) :
    (client.invoke env req audit).Keeps SameBets := by
  refine Prog.Keeps.bind (Idle.tryAcquire client _).sameBets fun decision => ?_
  split
  · trivial
  refine Prog.Keeps.bind Idle.now.sameBets fun started => ?_
  refine Prog.Keeps.bind (createWalletCall _) fun call => ?_
  refine Prog.Keeps.bind (Prog.Keeps.request fun _ _ => ⟨⟨rfl, rfl, rfl⟩, rfl, rfl⟩) fun sent => ?_
  refine Prog.Keeps.bind (awaitReply _ _) fun res => ?_
  refine Prog.Keeps.bind Idle.now.sameBets fun ended => ?_
  refine Prog.Keeps.bind (Idle.record client _ _).sameBets fun _ => ?_
  cases call with
  | none => trivial
  | some id =>
      exact Prog.Keeps.bind (Idle.sameBets (Prog.Keeps.catching Same.refl _
        (Idle.journalAnswer client env _ id res _))) fun _ => trivial

theorem queueJob (operatorId : OperatorId) (endpoint : WalletEndpoint) (betId roundId : Nat)
    (payload : JobPayload) (lastError : Option String) :
    (GameEngine.queueJob operatorId endpoint betId roundId payload lastError).Keeps SameBets :=
  Prog.Keeps.modify fun _ => ⟨⟨rfl, rfl, rfl⟩, rfl, rfl⟩

/-! ## Lossless out -/

theorem recordCashOut (mode : CashoutMode) (betId : Nat) (bet : Bet) (multiplier : Rat)
    (elapsedMs : Millis) (payoutMicro : Int) (winTxUuid requestUuid : Uuid)
    (res : WalletResponse) :
    (GameEngine.recordCashOut e mode betId bet multiplier elapsedMs payoutMicro winTxUuid requestUuid
      res).Keeps Lossless := by
  have hwritten : ∀ status (w : World), Lossless w (w.updateBet betId
      (Bet.cashOut mode multiplier elapsedMs payoutMicro winTxUuid status w.now)) := fun _ _ =>
    .updateBet fun _ hlost => by cases hlost
  unfold GameEngine.recordCashOut
  split
  · exact Prog.Keeps.bind (Prog.Keeps.modify (hwritten _)) fun _ =>
      Prog.Keeps.bind (Idle.resolveHeld _ _).lossless fun _ => (Idle.emit _ _).lossless
  · exact Prog.Keeps.bind (Prog.Keeps.modify (hwritten _)) fun _ =>
      (queueJob _ _ _ _ _ _).mono fun h => h.resolving.toLossless

theorem payCashOut (p : CashOutParams) (bet : Bet) (slotId : Option Nat) (multiplier : Rat)
    (elapsedMs : Millis) (payoutMicro : Int) :
    (GameEngine.payCashOut env e p bet slotId multiplier elapsedMs payoutMicro).Keeps Lossless := by
  refine Prog.Keeps.bind (Idle.newUuid _).lossless fun winTxUuid => ?_
  refine Prog.Keeps.bind (Idle.newUuid _).lossless fun requestUuid => ?_
  refine Prog.Keeps.bind ((invoke _ _ _ _).mono fun h => h.resolving.toLossless) fun res => ?_
  refine Prog.Keeps.bind (recordCashOut _ _ _ _ _ _ _ _ _) fun _ => ?_
  exact Prog.Keeps.bind (Idle.emit _ _).lossless fun _ =>
    Prog.Keeps.bind (Idle.engineEmit _ _).lossless fun _ =>
      Prog.Keeps.bind (Idle.emitPoolUpdate _ _).lossless fun _ => trivial

theorem cashOutAccepted (live : LiveCrashSupport) (p : CashOutParams) (n : Nat)
    (crashMultiplier : Rat) (bet : Bet) :
    (GameEngine.cashOutAccepted env e live p n crashMultiplier bet).Keeps Lossless := by
  unfold GameEngine.cashOutAccepted
  dsimp only
  split
  · trivial
  refine Prog.Keeps.bind Idle.now.lossless fun now => ?_
  refine Prog.Keeps.bind (Idle.engine e).lossless fun engine => ?_
  split
  · split
    · exact Prog.Keeps.bind (Idle.emit _ _).lossless fun _ => trivial
    · split
      · exact payCashOut _ _ _ _ _ _
      · trivial
  · trivial

theorem cashOutBet (p : CashOutParams) : (GameEngine.cashOutBet env e p).Keeps Lossless := by
  refine Prog.Keeps.bind (Idle.engine e).lossless fun engine => ?_
  split
  · split
    · trivial
    refine Prog.Keeps.bind (Idle.findUnique _ _).lossless fun bet => ?_
    split
    · trivial
    · split
      · trivial
      · split
        · trivial
        · exact cashOutAccepted _ _ _ _ _
  · trivial

theorem processAutoCashouts (live : LiveCrashSupport) (multiplier : Rat) :
    (GameEngine.processAutoCashouts env e live multiplier).Keeps Lossless := by
  refine Prog.Keeps.bind (Idle.engine e).lossless fun engine => ?_
  split
  · trivial
  split
  · trivial
  refine Prog.Keeps.bind (Idle.findInOrder _ _).lossless fun bets => ?_
  refine Prog.Keeps.each (fun b => ?_) bets
  split
  · trivial
  split
  · trivial
  · exact Prog.Keeps.bind (cashOutBet _) fun _ => trivial

/-! ## Resolving a bet -/

theorem closeLost (betId : Nat) (reason : String) :
    (GameEngine.closeLost betId reason).Keeps SameRounds :=
  Prog.Keeps.bind (modify fun _ => ⟨rfl, rfl, rfl⟩) fun _ => (Idle.resolveHeld _ _).still

theorem recordWin (gameCode : GameCode) (betId : Nat) (bet : Bet) (payoutMicro : Int)
    (winTxUuid requestUuid : Uuid) (res : WalletResponse) :
    (GameEngine.recordWin e gameCode betId bet payoutMicro winTxUuid requestUuid res).Keeps
      Resolving := by
  unfold GameEngine.recordWin
  split
  · exact Prog.Keeps.bind (Prog.Keeps.modify fun _ => .updateBet (fun _ hlost => by cases hlost)
      fun _ => ⟨rfl, rfl⟩) fun _ => Prog.Keeps.bind (Idle.resolveHeld _ _).resolving fun _ =>
        (Idle.engineEmit _ _).resolving
  · exact Prog.Keeps.bind (Prog.Keeps.modify fun _ => .updateBet (fun _ hlost => ⟨hlost, rfl, rfl, rfl⟩)
      fun _ => ⟨rfl, rfl⟩) fun _ => (queueJob _ _ _ _ _ _).mono SameBets.resolving

theorem payWin (gameCode : GameCode) (betId : Nat) (bet : Bet) (payoutMicro : Int) :
    (GameEngine.payWin env e gameCode betId bet payoutMicro).Keeps Resolving := by
  refine Prog.Keeps.bind (Idle.newUuid _).resolving fun winTxUuid => ?_
  refine Prog.Keeps.bind (Idle.newUuid _).resolving fun requestUuid => ?_
  exact Prog.Keeps.bind ((invoke _ _ _ _).mono SameBets.resolving) fun res => recordWin _ _ _ _ _ _ _

theorem requeueWin (r : Nat × Round) (b : Nat × Bet) (payoutMicro : Int) :
    (GameEngine.requeueWin r b payoutMicro).Keeps Resolving := by
  have htransaction : Idle (GameEngine.winTransaction b.2) := by
    unfold GameEngine.winTransaction
    split
    · trivial
    · exact Idle.newUuid _
  refine Prog.Keeps.bind htransaction.resolving fun winTxUuid => ?_
  refine Prog.Keeps.bind (Idle.newUuid _).resolving fun requestUuid => ?_
  exact Prog.Keeps.bind ((queueJob _ _ _ _ _ _).mono SameBets.resolving) fun _ =>
    Prog.Keeps.modify fun _ => .updateBet (fun _ hlost => ⟨hlost, rfl, rfl, rfl⟩) fun _ => ⟨rfl, rfl⟩

theorem resumeBet (plugin : GamePlugin) (r : Nat × Round) (outcome : GameOutcome) (total : Int)
    (b : Nat × Bet) : (GameEngine.resumeBet e plugin r outcome total b).Keeps SameRounds := by
  unfold GameEngine.resumeBet
  split
  · trivial
  refine Prog.Keeps.bind (Idle.engine e).still fun engine => ?_
  split
  · trivial
  dsimp only
  split
  · exact Prog.Keeps.bind (closeLost _ _) fun _ => trivial
  · exact Prog.Keeps.bind ((requeueWin _ _ _).mono fun h => h.toSameRounds) fun _ => trivial

theorem voidBet (r : Nat × Round) (b : Nat × Bet) :
    (GameEngine.voidBet r b).Keeps Resolving := by
  refine Prog.Keeps.bind (Prog.Keeps.modify fun _ =>
    .updateBet (fun _ hlost => ⟨hlost, rfl, rfl, rfl⟩) fun _ => ⟨rfl, rfl⟩) fun _ => ?_
  refine Prog.Keeps.bind (Prog.Keeps.modify fun _ =>
    SameBets.resolving ⟨⟨rfl, rfl, rfl⟩, rfl, rfl⟩) fun _ => ?_
  refine Prog.Keeps.bind (Idle.newUuid _).resolving fun requestUuid => ?_
  exact Prog.Keeps.bind (Idle.newUuid _).resolving fun transactionUuid =>
    (queueJob _ _ _ _ _ _).mono SameBets.resolving

end Still

end YantraRgs
