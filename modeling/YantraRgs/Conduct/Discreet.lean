import YantraRgs.Conduct.PlaceBet
import YantraRgs.Conduct.Still

/-! # What makes no round and answers nobody

Everything but the creation of a round in a turn of the loop, and the answers that end a call, neither
makes a round nor answers its caller.

* **`Discreet`** — what such a part of a call leaves alone.
* **`Discreet.iteration_go`** — a turn of the loop may go on where the creation of its round may. -/

namespace YantraRgs

open Await

variable {w w' : World} {env : Env} {e : EngineRef} {α : Type}

/-- **No round is made, and nobody is answered.** -/
structure Discreet (w w' : World) : Prop where
  rounds : w'.rounds.length = w.rounds.length
  answers : w'.answers = w.answers

theorem Discreet.refl (w : World) : Discreet w w := ⟨rfl, rfl⟩

theorem Alike.discreet (h : Alike w w') : Discreet w w' := ⟨congrArg List.length h.rounds, h.answers⟩

theorem SameRounds.discreet (h : SameRounds w w') : Discreet w w' :=
  ⟨congrArg List.length h.rounds, h.answers⟩

theorem Discreet.updateRound (w : World) (id : Nat) (f : Round → Round) :
    Discreet w (w.updateRound id f) :=
  ⟨by rw [World.updateRound, List.length_modify], rfl⟩

theorem Idle.discreet {p : Action α} (hp : Idle p) : p.Keeps Discreet :=
  hp.mono fun h => h.toAlike.discreet

namespace Discreet

theorem modify {f : World → World} (h : ∀ w, Discreet w (f w)) :
    (Prog.modify f : Action Unit).Keeps Discreet := Prog.Keeps.modify h

theorem updateActive (f : Millis → ActiveRound → ActiveRound) :
    (GameEngine.setActive e f).Keeps Discreet := modify fun _ => ⟨rfl, rfl⟩

/-! ## Placing a bet -/

theorem acceptBet (p : PlaceBetParams) (roundId betId : Nat) (res : WalletResponse) :
    (GameEngine.acceptBet e p roundId betId res).Keeps Discreet := by
  refine Prog.Keeps.bind (modify fun _ => ⟨rfl, rfl⟩) fun _ => ?_
  refine Prog.Keeps.bind (modify fun _ => ⟨rfl, rfl⟩) fun _ => ?_
  refine Prog.Keeps.bind (modify fun w => .updateRound w _ _) fun _ => ?_
  exact Prog.Keeps.bind (Idle.emit _ _).discreet fun _ =>
    Prog.Keeps.bind (Idle.engineEmit _ _).discreet fun _ =>
      Prog.Keeps.bind (Idle.emitPoolUpdate _ _).discreet fun _ => trivial

theorem declineBet (p : PlaceBetParams) (betId : Nat) (status : RsStatus) :
    (GameEngine.declineBet p betId status).Keeps Discreet :=
  Prog.Keeps.bind (modify fun _ => ⟨rfl, rfl⟩) fun _ =>
    Prog.Keeps.bind (Idle.emit _ _).discreet fun _ => trivial

theorem compensateBet (p : PlaceBetParams) (roundId betId : Nat) (txUuid : Uuid)
    (res : WalletResponse) : (GameEngine.compensateBet e p roundId betId txUuid res).Keeps Discreet := by
  refine Prog.Keeps.bind (modify fun _ => ⟨rfl, rfl⟩) fun _ => ?_
  refine Prog.Keeps.bind (Idle.newUuid _).discreet fun requestUuid => ?_
  refine Prog.Keeps.bind (Idle.newUuid _).discreet fun transactionUuid => ?_
  refine Prog.Keeps.bind ((Still.queueJob _ _ _ _ _ _).mono fun h => h.discreet) fun _ => ?_
  exact Prog.Keeps.bind (Idle.emit _ _).discreet fun _ => trivial

theorem takeStake (p : PlaceBetParams) (round : ActiveRound) :
    (GameEngine.takeStake env e p round).Keeps Discreet := by
  refine Prog.Keeps.bind (Idle.newUuid _).discreet fun txUuid => ?_
  refine Prog.Keeps.bind (Idle.newUuid _).discreet fun requestUuid => ?_
  refine Prog.Keeps.bind (Prog.Keeps.request fun _ _ => ⟨rfl, rfl⟩) fun betId => ?_
  refine Prog.Keeps.bind ((Still.invoke _ _ _ _).mono fun h => h.discreet) fun res => ?_
  split
  · exact acceptBet _ _ _ _
  split
  · exact declineBet _ _ _
  · exact compensateBet _ _ _ _ _

theorem checkLimits (p : PlaceBetParams) (round : ActiveRound) (session : GameSession) :
    (GameEngine.checkLimits env e p round session).Keeps Discreet := by
  refine Prog.Keeps.bind (Idle.previousBet _ _ _ _).discreet fun previousBet => ?_
  refine Prog.Keeps.bind Idle.now.discreet fun now => ?_
  refine Prog.Keeps.bind (Idle.checkRGLimits _ _ _ _ _).discreet fun rgCheck => ?_
  split
  · exact takeStake _ _
  dsimp only
  refine Prog.Keeps.bind (Idle.emit _ _).discreet fun _ => ?_
  split
  · exact Prog.Keeps.bind (modify fun _ => ⟨rfl, rfl⟩) fun _ => trivial
  · trivial

theorem placeBet (p : PlaceBetParams) : (GameEngine.placeBet env e p).Keeps Discreet := by
  have hreject : ∀ reason, (GameEngine.rejectBet p.sessionId reason none >>= fun _ =>
      (pure (Answer.refused reason) : Action Answer)).Keeps Discreet := fun reason =>
    Prog.Keeps.bind (Idle.emit _ _).discreet fun _ => trivial
  refine Prog.Keeps.bind (Idle.engine e).discreet fun engine => ?_
  split
  · split
    · trivial
    split
    · trivial
    split
    · exact hreject _
    refine Prog.Keeps.bind (Idle.findUnique _ _).discreet fun session => ?_
    split
    · exact hreject _
    refine Prog.Keeps.bind Idle.now.discreet fun now => ?_
    split
    · exact hreject _
    split
    · exact hreject _
    · exact checkLimits _ _ _
  · trivial

theorem cashOut (p : CashOutParams) : (GameEngine.cashOut env e p).Keeps Discreet := by
  refine Prog.Keeps.bind (Idle.engine e).discreet fun engine => ?_
  split
  · exact (Still.cashOutBet _).mono fun h => h.discreet
  · trivial

/-! ## A turn of the loop, once its round is made -/

theorem chainRound (id : Nat) (round : Round) :
    (GameEngine.chainRound env e id round).Keeps Discreet :=
  Prog.Keeps.bind (Prog.Keeps.query .refl _) fun _ => modify fun w => .updateRound w _ _

theorem rollAndShow (plugin : GamePlugin) (active : ActiveRound) :
    (GameEngine.rollAndShow e plugin active).Keeps Discreet := by
  refine Prog.Keeps.bind (Prog.Keeps.request fun _ _ => ⟨rfl, rfl⟩) fun windowMs => ?_
  refine Prog.Keeps.bind (modify fun w => .updateRound w _ _) fun _ => ?_
  refine Prog.Keeps.bind (Idle.engineEmit _ _).discreet fun _ => ?_
  refine Prog.Keeps.bind (Idle.wait _ _).discreet fun _ => ?_
  refine Prog.Keeps.bind (Idle.engine e).discreet fun engine => ?_
  split
  · trivial
  · exact Prog.Keeps.bind (modify fun w => .updateRound w _ _) fun _ =>
      Prog.Keeps.bind (updateActive _) fun _ => (Idle.engineEmit _ _).discreet

theorem fly (live : LiveCrashSupport) (crashAtMs : Millis) (polls : Nat) (lastTickAt : Millis) :
    (GameEngine.fly env e live crashAtMs polls lastTickAt).Keeps Discreet := by
  induction polls generalizing lastTickAt with
  | zero => exact Prog.Keeps.hang
  | succ polls ih =>
      refine Prog.Keeps.bind Idle.now.discreet fun now => ?_
      refine Prog.Keeps.bind (Idle.engine e).discreet fun engine => ?_
      split
      · split
        · trivial
        dsimp only
        split
        · trivial
        have hpoll : ∀ multiplier lastTickAt, (GameEngine.processAutoCashouts env e live multiplier >>=
            fun _ => Action.wait e 50 >>= fun _ =>
              GameEngine.fly env e live crashAtMs polls lastTickAt).Keeps Discreet := fun _ _ =>
          Prog.Keeps.bind ((Still.processAutoCashouts _ _).mono fun h => h.discreet) fun _ =>
            Prog.Keeps.bind (Idle.wait _ _).discreet fun _ => ih _
        split
        · exact Prog.Keeps.bind (Idle.engineEmit _ _).discreet fun _ => hpoll _ _
        · exact hpoll _ _
      · trivial

theorem takeOff (plugin : GamePlugin) (live : LiveCrashSupport) (active : ActiveRound) :
    (GameEngine.takeOff e plugin live active).Keeps Discreet := by
  refine Prog.Keeps.request fun _ w => ?_
  split
  · exact .refl w
  dsimp only
  split
  · exact .refl w
  · exact ⟨rfl, rfl⟩

theorem rollLiveCrashAndReveal (plugin : GamePlugin) (live : LiveCrashSupport) (polls : Nat)
    (active : ActiveRound) :
    (GameEngine.rollLiveCrashAndReveal env e plugin live polls active).Keeps Discreet := by
  refine Prog.Keeps.bind (takeOff _ _ _) fun flight => ?_
  split
  · trivial
  refine Prog.Keeps.bind (modify fun w => .updateRound w _ _) fun _ => ?_
  refine Prog.Keeps.bind (Idle.engineEmit _ _).discreet fun _ => ?_
  refine Prog.Keeps.bind (fly _ _ _ _) fun _ => ?_
  refine Prog.Keeps.bind (updateActive _) fun _ => ?_
  refine Prog.Keeps.bind (modify fun w => .updateRound w _ _) fun _ => ?_
  exact Prog.Keeps.bind (Idle.engineEmit _ _).discreet fun _ => trivial

theorem rollAndReveal (plugin : GamePlugin) (polls : Nat) :
    (GameEngine.rollAndReveal env e plugin polls).Keeps Discreet := by
  refine Prog.Keeps.bind (Idle.engine e).discreet fun engine => ?_
  split
  · trivial
  split
  · exact rollLiveCrashAndReveal _ _ _ _
  · exact Prog.Keeps.bind (rollAndShow _ _) fun _ => trivial

theorem settleOne (plugin : GamePlugin) (gameCode : GameCode) (outcome : GameOutcome) (total : Int)
    (b : Nat × Bet) : (GameEngine.settleOne env e plugin gameCode outcome total b).Keeps Discreet := by
  refine Prog.Keeps.bind (Idle.engine e).discreet fun engine => ?_
  split
  · trivial
  dsimp only
  split
  · exact Prog.Keeps.bind ((Still.closeLost _ _).mono fun h => h.discreet) fun _ => trivial
  refine Prog.Keeps.bind (Idle.findUnique _ _).discreet fun session => ?_
  split
  · trivial
  · exact Prog.Keeps.bind ((Still.payWin _ _ _ _).mono fun h => h.discreet) fun _ => trivial

theorem settle (plugin : GamePlugin) : (GameEngine.settle env e plugin).Keeps Discreet := by
  refine Prog.Keeps.bind (Idle.engine e).discreet fun engine => ?_
  split
  · trivial
  refine Prog.Keeps.bind (Idle.findUnique _ _).discreet fun round => ?_
  split
  · refine Prog.Keeps.bind (Idle.findInOrder _ _).discreet fun bets => ?_
    refine Prog.Keeps.bind (Idle.findInOrder _ _).discreet fun preCashed => ?_
    refine Prog.Keeps.bind (Prog.Keeps.fold (settleOne _ _ _) _ _) fun total => ?_
    refine Prog.Keeps.bind (modify fun w => .updateRound w _ _) fun _ => ?_
    exact Prog.Keeps.bind (modify fun _ => ⟨rfl, rfl⟩) fun _ => (Idle.emitPoolUpdate _ _).discreet
  · trivial

/-! ## The other calls that answer nobody -/

theorem resumeRound (plugin : GamePlugin) (r : Nat × Round) :
    (GameEngine.resumeRound e plugin r).Keeps Discreet := by
  unfold GameEngine.resumeRound
  split
  · refine Prog.Keeps.bind (Idle.findMany _ _).discreet fun unresolved => ?_
    refine Prog.Keeps.bind (Prog.Keeps.fold (fun total b =>
      (Still.resumeBet _ _ _ total b).mono fun h => h.discreet) _ _) fun total => ?_
    exact modify fun w => .updateRound w _ _
  · refine Prog.Keeps.bind (modify fun w => .updateRound w _ _) fun _ => ?_
    refine Prog.Keeps.bind (Idle.findMany _ _).discreet fun accepted => ?_
    exact Prog.Keeps.each (fun b => (Still.voidBet _ b).mono fun h => h.discreet) _

theorem start : (GameEngine.start env e).Keeps Discreet := by
  unfold GameEngine.start
  split
  · trivial
  refine Prog.Keeps.bind (Idle.engine e).discreet fun engine => ?_
  split
  · trivial
  refine Prog.Keeps.bind ?_ fun _ => modify fun _ => ⟨rfl, rfl⟩
  exact Prog.Keeps.bind (Idle.findMany _ _).discreet fun stuck =>
    Prog.Keeps.each (fun r => resumeRound _ r) _

theorem runJob (jobId : Nat) : (PendingJobRunner.runJob env jobId).Keeps Discreet := by
  have hreschedule : ∀ attempts error,
      (PendingJobRunner.reschedule jobId attempts error).Keeps Discreet := fun _ _ =>
    modify fun _ => ⟨rfl, rfl⟩
  have hcall : ∀ job, (PendingJobRunner.callWallet env job).Keeps Discreet := by
    intro job
    unfold PendingJobRunner.callWallet
    split
    · trivial
    · exact Prog.Keeps.bind ((Still.invoke _ _ _ _).mono fun h => h.discreet) fun _ => trivial
  have hattempt : ∀ job, (PendingJobRunner.attempt env jobId job).Keeps Discreet := by
    intro job
    refine Prog.Keeps.bind (hcall job) fun status => ?_
    split
    · exact modify fun _ => ⟨rfl, rfl⟩
    · exact hreschedule _ _
  refine Prog.Keeps.bind (Prog.Keeps.request fun i w => ?_) fun locked => ?_
  · split
    · exact ⟨rfl, rfl⟩
    · exact .refl w
  split
  · trivial
  refine Prog.Keeps.bind (Idle.findUnique _ _).discreet fun job => ?_
  split
  · trivial
  refine Prog.Keeps.bind ?_ fun adapter => ?_
  · refine Prog.Keeps.bind (Idle.findUnique _ _).discreet fun op => ?_
    split
    · trivial
    · exact Prog.Keeps.bind (Prog.Keeps.query .refl _) fun _ => trivial
  split
  · exact hreschedule _ _
  refine Prog.Keeps.bind (Prog.Keeps.catching .refl _ (hattempt _)) fun done => ?_
  split
  · trivial
  · exact hreschedule _ _

theorem tick : (PendingJobRunner.tick env).Keeps Discreet := by
  refine Prog.Keeps.bind (Idle.findSome _ _ _).discreet fun jobs => ?_
  refine Prog.Keeps.each (fun job => ?_) _
  exact Prog.Keeps.bind (Prog.Keeps.catching .refl _ (runJob _)) fun _ => trivial

end Discreet

/-! ## A turn of the loop -/

/-- **Nobody is answered.** -/
def Unanswered (w w' : World) : Prop := w'.answers = w.answers

theorem Discreet.unanswered (h : Discreet w w') : Unanswered w w' := h.answers

theorem Idle.unanswered {p : Action α} (hp : Idle p) : p.Keeps Unanswered :=
  hp.discreet.mono Discreet.unanswered

/-- What follows the creation of a round: it is chained, and the nonce of its session is counted up. -/
theorem Discreet.afterCreate (sessionId id : Nat) (round : Round) :
    ((GameEngine.chainRound env e id round).catching (· = .fail) >>= fun _ =>
      Prog.modify (fun w => w.updateSession sessionId fun s => { s with nonce := s.nonce + 1 }) >>=
        fun _ => (pure (id, round) : Action (Nat × Round))).Keeps Discreet :=
  Prog.Keeps.bind (Prog.Keeps.catching .refl _ (chainRound _ _)) fun _ =>
    Prog.Keeps.bind (modify fun _ => ⟨rfl, rfl⟩) fun _ => trivial

theorem getOrCreateEngineSession_unanswered :
    (GameEngine.getOrCreateEngineSession e).Keeps Unanswered := by
  refine Prog.Keeps.bind (Idle.findFirst _ _).unanswered fun existing => ?_
  refine Prog.Keeps.bind Idle.now.unanswered fun now => ?_
  split
  · trivial
  · exact Prog.Keeps.request fun _ _ => rfl

theorem createRound_unanswered (plugin : GamePlugin) :
    (GameEngine.createRound env e plugin).Keeps Unanswered := by
  refine Prog.Keeps.bind getOrCreateEngineSession_unanswered fun session => ?_
  refine Prog.Keeps.bind (Prog.Keeps.request fun _ _ => rfl) fun made => ?_
  exact (Discreet.afterCreate _ _ _).mono Discreet.unanswered

/-- A discreet program may always go on, where discreet actions keep to the guarantee. -/
theorem Discreet.go {ρ : Rules World} {i : Nat} {p : Action α}
    (hρ : ∀ {w w'}, Discreet w w' → ρ.guar w w') (hp : p.Keeps Discreet) :
    Go ρ i p (fun _ _ => True) w :=
  Go.keeps (R := fun _ => True) hp trivial (fun _ h => h) fun _ h => ⟨hρ h, trivial⟩

/-- **A turn of the loop may go on** where the creation of its round may. -/
theorem Discreet.iteration_go {ρ : Rules World} {i polls : Nat}
    (hρ : ∀ {w w'}, Discreet w w' → ρ.guar w w')
    (h : ∀ plugin, Go ρ i (GameEngine.createRound env e plugin) (fun _ _ => True) w) :
    Go ρ i (GameEngine.iteration env e polls) (fun _ _ => True) w := by
  unfold GameEngine.iteration
  split
  · trivial
  rename_i plugin _
  refine Go.bind_iff.mpr (Go.mono (Q := fun _ _ => True) (Go.bind_iff.mpr ((h plugin).mono
    fun made w _ => Discreet.go hρ ?_)) fun _ w _ => Discreet.go hρ ?_)
  · exact Prog.Keeps.bind (Prog.Keeps.request fun _ _ => ⟨rfl, rfl⟩) fun _ =>
      Prog.Keeps.bind (Idle.engineEmit _ _).discreet fun _ => (Idle.wait _ _).discreet
  · refine Prog.Keeps.bind (rollAndReveal _ _) fun rolled => ?_
    split
    · exact Prog.Keeps.bind (settle _) fun _ => Prog.Keeps.bind (Prog.Keeps.query .refl _) fun _ =>
        (Idle.wait _ _).discreet
    · exact (Idle.wait _ _).discreet

end YantraRgs
