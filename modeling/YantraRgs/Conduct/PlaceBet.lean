import YantraRgs.Conduct.Calling

/-! # Placing a bet keeps to the rules

A call that places a bet creates one bet, hands over one request for its stake, and then accepts the
bet or rejects it; nobody else touches the bet while it is pending. -/

namespace YantraRgs

open Await

variable {P : Policy} {i : Nat} {k : Call} {w : World}

/-! ## Queueing a wallet call -/

/-- **Queueing a wallet call of a bet.** -/
theorem queueJob_go {operatorId : OperatorId} {endpoint : WalletEndpoint} {betId roundId : Nat}
    {payload : JobPayload} {lastError : Option String} {R : World → Prop} {Q : Unit → World → Prop}
    (hR : R w) (hstable : Stable P i k R) (ho : payload.requestUuid.owner = i)
    (hjob : ∀ {w}, Sound P w → R w → w.Queueable payload.requestUuid ∧
      ∃ b, w.bets[betId]? = some b ∧
        payload.referenceTransactionUuid = some b.betTransactionUuid ∧ w.Reaches k b.roundId ∧
        ∀ j : PendingWalletJob, j.endpoint = endpoint → j.payload = payload →
          JobPurpose P k w b j)
    (hQ : ∀ {w j}, Sound P w → R w → j.endpoint = endpoint → j.payload = payload →
      j.betId = some betId → Q () (w.addJob j)) :
    Walk P i k (GameEngine.queueJob operatorId endpoint betId roundId payload lastError) Q w := by
  refine Go.modify fun w₁ hr hs _ => ?_
  have hR₁ : R w₁ := hstable hr hR
  obtain ⟨hq, b, hb, href, hreach, hpurpose⟩ := hjob hs hR₁
  refine ⟨.addJob _ ?_, fun _ => hQ hs hR₁ rfl rfl rfl⟩
  exact
    { attempts := rfl
      free := rfl
      opened := rfl
      owner := ho
      serial := hq.serial
      request := hq.jobs
      journalled := hq.calls
      handed := hq.wire
      bet := ⟨betId, b, rfl, hb, href, hreach, hpurpose _ rfl rfl⟩ }

/-! ## The parts of `placeBet` that leave the tables alone -/

namespace Idle

theorem engineEmit (e : EngineRef) (x : Emission) : Idle (GameEngine.emit e x) := emit _ x

theorem emitPoolUpdate (e : EngineRef) (roundId : Nat) :
    Idle (GameEngine.emitPoolUpdate e roundId) :=
  Prog.Keeps.bind (findInOrder _ _) fun _ => engineEmit e _

theorem rejectBet (sessionId : Nat) (reason : String) (remainingMicro : Option Int) :
    Idle (GameEngine.rejectBet sessionId reason remainingMicro) := emit _ _

theorem previousBet (env : Env) (e : EngineRef) (sessionId roundId : Nat) :
    Idle (GameEngine.previousBet env e sessionId roundId) := by
  unfold GameEngine.previousBet
  split
  · trivial
  · exact Prog.Keeps.query Same.refl _

theorem checkCapsOver (wager loss : Option Int) (wagerReason lossReason : String)
    (stakeMicro : Int) (p : Bet → Bool) :
    Idle (YantraRgs.checkCapsOver wager loss wagerReason lossReason stakeMicro p) := by
  unfold YantraRgs.checkCapsOver
  split
  · exact Prog.Keeps.bind (findInOrder _ _) fun _ => trivial
  · trivial

theorem checkRGLimits (env : Env) (sessionId : Nat) (session : GameSession) (stakeMicro : Int)
    (betContext : BetContext) :
    Idle (YantraRgs.checkRGLimits env sessionId session stakeMicro betContext) := by
  refine Prog.Keeps.bind now fun now => ?_
  dsimp only
  split
  · trivial
  · split
    · trivial
    · split
      · trivial
      · refine Prog.Keeps.bind (checkCapsOver _ _ _ _ _ _) fun inSession => ?_
        split
        · trivial
        · exact Prog.Keeps.bind (checkCapsOver _ _ _ _ _ _) fun _ => trivial

end Idle

/-! ## Taking the stake -/

/-- A call that has not created a bet. -/
def NoBetYet (i : Nat) (w : World) : Prop := ∀ b ∈ w.bets, b.betTransactionUuid.owner ≠ i

instance decidableNoBetYet (i : Nat) (w : World) : Decidable (NoBetYet i w) :=
  inferInstanceAs (Decidable (∀ b ∈ w.bets, b.betTransactionUuid.owner ≠ i))

/-- Nobody else creates a bet for call `i`. -/
theorem noBetYet_stable : Stable P i k (NoBetYet i) := by
  intro w w' hr h b' hb' ho
  obtain ⟨n, hn⟩ := List.mem_iff_getElem?.mp hb'
  obtain ⟨b, hb⟩ := hr.stakes hn ho
  obtain ⟨b'', hb'', hl⟩ := hr.later.bet hb
  rw [hn] at hb''
  obtain rfl := Option.some.inj hb''
  exact h b (List.mem_of_getElem? hb) (hl.betTransactionUuid ▸ ho)

section TakeStake

variable {e : EngineRef} {p : PlaceBetParams} {round : ActiveRound} {betId : Nat} {b : Bet}

/-- The bet of call `i`, as it was created, in a round that the call reaches. -/
def Placed (i : Nat) (k : Call) (round : ActiveRound) (betId : Nat) (b : Bet) (w : World) : Prop :=
  w.bets[betId]? = some b ∧ b.status = .pending ∧ b.betTransactionUuid.owner = i ∧
    b.roundId = round.id ∧ w.Reaches k round.id

theorem placed_stable : Stable P i k (Placed i k round betId b) :=
  fun _ _ hr ⟨hb, hp, ho, hround, hreach⟩ =>
    ⟨hr.pending hb ho hp, hp, ho, hround, hr.later.reaches hreach⟩

/-- Accepting the bet. -/
theorem acceptBet_go {res : WalletResponse} (h : Placed i k round betId b w) :
    Walk P i k (GameEngine.acceptBet e p round.id betId res) (fun _ _ => True) w := by
  have haccept : Walk P i k
      (Prog.modify fun w => w.updateBet betId fun b => { b with status := .accepted })
      (fun _ w' => w'.Reaches k round.id) w := by
    refine Go.modify fun w₁ hr _ _ => ?_
    obtain ⟨hb, hp, ho, hround, hreach⟩ := placed_stable hr h
    have hmove := updateBet_move (P := P) (i := i) (k := k) (w := w₁) betId
      (f := fun b => { b with status := .accepted }) fun b₁ hb₁ => by
        rw [hb] at hb₁
        obtain rfl := Option.some.inj hb₁
        exact ⟨hround ▸ hreach, .accept b ho hp⟩
    exact ⟨hmove, fun _ => hmove.later.reaches hreach⟩
  refine Go.bind_iff.mpr (haccept.mono fun _ w hreach => ?_)
  refine Walk.idle_bind (R := fun w => w.Reaches k round.id)
    (Prog.Keeps.modify fun w => { Same.refl w with }) hreach
    (.of_later fun hl => hl.reaches) fun _ w hreach => ?_
  have hnote : Walk P i k (Prog.modify fun w => w.updateRound round.id fun r =>
      { r with totalBetsMicro := r.totalBetsMicro + p.amountMicro }) (fun _ _ => True) w := by
    refine Go.modify fun w₁ hr _ _ => ⟨?_, fun _ => trivial⟩
    exact updateRound_move _ (hr.later.reaches hreach) fun r _ => .note r _ r.prevRowHash r.rowHash
  refine hnote.then_idle fun _ => Prog.Keeps.bind (Idle.emit _ _) fun _ =>
    Prog.Keeps.bind (Idle.engineEmit _ _) fun _ =>
      Prog.Keeps.bind (Idle.emitPoolUpdate _ _) fun _ => trivial

/-- The bet of a call, rejected. -/
def Rejected (k : Call) (round : ActiveRound) (betId : Nat) (txUuid : Uuid) (w : World) : Prop :=
  (∃ b, w.bets[betId]? = some b ∧ b.status = .rejected ∧ b.betTransactionUuid = txUuid ∧
    b.roundId = round.id) ∧ w.Reaches k round.id

theorem rejected_stable {txUuid : Uuid} : Stable P i k (Rejected k round betId txUuid) :=
  .of_later fun hl ⟨⟨_, hb, hs, ht, hround⟩, hreach⟩ => by
    obtain ⟨b', hb', hbl⟩ := hl.bet hb
    exact ⟨⟨b', hb', hbl.rejected hs, hbl.betTransactionUuid.trans ht, hbl.roundId.trans hround⟩,
      hl.reaches hreach⟩

/-- Rejecting the bet. -/
theorem reject_go (h : Placed i k round betId b w) :
    Walk P i k (Prog.modify fun w => w.updateBet betId fun b => { b with status := .rejected })
      (fun _ w' => Rejected k round betId b.betTransactionUuid w') w := by
  refine Go.modify fun w₁ hr _ _ => ?_
  obtain ⟨hb, hp, ho, hround, hreach⟩ := placed_stable hr h
  have hmove := updateBet_move (P := P) (i := i) (k := k) (w := w₁) betId
    (f := fun b => { b with status := .rejected }) fun b₁ hb₁ => by
      rw [hb] at hb₁
      obtain rfl := Option.some.inj hb₁
      exact ⟨hround ▸ hreach, .reject b ho hp⟩
  refine ⟨hmove, fun _ => ⟨⟨{ b with status := .rejected }, ?_, rfl, rfl, hround⟩,
    hmove.later.reaches hreach⟩⟩
  simp only [World.updateBet, Table.modify_eq_set hb, Table.getElem?_set_self_of_some hb]

/-- Rejecting the bet when the operator refused the debit. -/
theorem declineBet_go {status : RsStatus} (h : Placed i k round betId b w) :
    Walk P i k (GameEngine.declineBet p betId status) (fun _ _ => True) w :=
  Go.bind_iff.mpr ((reject_go h).mono fun _ _ _ =>
    Walk.of_idle (Prog.Keeps.bind (Idle.rejectBet _ _ _) fun _ => trivial))

/-- Rejecting the bet and queueing its rollback when nobody knows about the debit. -/
theorem compensateBet_go {res : WalletResponse} (h : Placed i k round betId b w) :
    Walk P i k (GameEngine.compensateBet e p round.id betId b.betTransactionUuid res)
      (fun _ _ => True) w := by
  refine Go.bind_iff.mpr ((reject_go h).mono fun _ w hR => ?_)
  refine Go.bind_iff.mpr ((newUuid_go hR rejected_stable).mono
    fun requestUuid w ⟨hR, _, ho, hn, hq⟩ => ?_)
  have hstable : Stable P i k fun w =>
      Rejected k round betId b.betTransactionUuid w ∧ w.Queueable requestUuid :=
    rejected_stable.and (queueable_stable ho)
  refine Walk.idle_bind (Idle.newUuid _) ⟨hR, .of_not_known hn hq⟩ hstable
    fun transactionUuid w hR => ?_
  refine Go.bind_iff.mpr (Go.mono (queueJob_go (Q := fun _ _ => True) hR hstable ho
    (fun _ hR => ?_) fun _ _ _ _ _ => trivial) fun _ _ _ =>
      Walk.of_idle (Prog.Keeps.bind (Idle.rejectBet _ _ _) fun _ => trivial))
  obtain ⟨⟨⟨b', hb', hs, ht, hround⟩, hreach⟩, hq⟩ := hR
  exact ⟨hq, b', hb', congrArg some ht.symm, hround ▸ hreach, fun j he _ =>
    .refund he (by rw [hs]; decide) (.inl hs)⟩

variable {env : Env}

/-- Asking the operator for the stake of a bet, and what comes of it. -/
theorem askStake_go {requestUuid : Uuid} (h : Placed i k round betId b w)
    (ho : requestUuid.owner = i) (hn : requestUuid.serial < w.serial)
    (hq : ¬ w.RequestKnown requestUuid) :
    Walk P i k (do
      let res ← WalletClient.invoke ⟨e.key.operatorId, some e⟩ env
        (GameEngine.betRequest e p round.id requestUuid b.betTransactionUuid)
        ⟨some p.sessionId, some round.id, none⟩
      if isSuccessOrDuplicate res.status then GameEngine.acceptBet e p round.id betId res
      else if isRejectStatus res.status then GameEngine.declineBet p betId res.status
      else GameEngine.compensateBet e p round.id betId b.betTransactionUuid res)
      (fun _ _ => True) w := by
  have hcall : Walk P i k (WalletClient.invoke ⟨e.key.operatorId, some e⟩ env
      (GameEngine.betRequest e p round.id requestUuid b.betTransactionUuid)
      ⟨some p.sessionId, some round.id, none⟩)
      (fun _ w' => Placed i k round betId b w' ∧ w'.Queueable requestUuid) w :=
    invoke_first_go ⟨e.key.operatorId, some e⟩ env rfl ho hn hq h placed_stable (fun h => h)
      (fun h => h)
    fun ⟨hb, hp, ho', _, _⟩ hserial hwire hjobs =>
      .stake b (List.mem_of_getElem? hb) ho' hp rfl rfl rfl ho hwire hjobs hserial
  refine Go.bind_iff.mpr (hcall.mono fun res w ⟨hb, _⟩ => ?_)
  split
  · exact acceptBet_go hb
  · split
    · exact declineBet_go hb
    · exact compensateBet_go hb

/-- **Taking the stake of a bet that passed every check.** -/
theorem takeStake_go (hk : ∃ e params, k = .placeBet e params) (hi : NoBetYet i w)
    (hreach : w.Reaches k round.id) (hsession : ∃ s, w.sessions[p.sessionId]? = some s) :
    Walk P i k (GameEngine.takeStake env e p round) (fun _ _ => True) w := by
  have hbase : Stable P i k fun w => NoBetYet i w ∧ w.Reaches k round.id ∧
      ∃ s, w.sessions[p.sessionId]? = some s :=
    noBetYet_stable.and (.of_later fun hl ⟨hreach, s, hs⟩ => by
      obtain ⟨s', hs', -⟩ := hl.session hs
      exact ⟨hl.reaches hreach, s', hs'⟩)
  refine Go.bind_iff.mpr ((newUuid_go ⟨hi, hreach, hsession⟩ hbase).mono
    fun txUuid w ⟨hR, huse, howner, _, _⟩ => ?_)
  refine Go.bind_iff.mpr ((newUuid_go hR hbase).mono
    fun requestUuid w ⟨hR, _, ho, hn, hq⟩ => ?_)
  -- the bet is created
  have hadd : Walk P i k (Prog.request fun _ w =>
      let commissionMicro := ((w.engine? e).map fun engine => engine.cfg.commissionMicro).getD 0
      (w.bets.length, w.addBet (GameEngine.newBet e p round.id commissionMicro txUuid w.now)))
      (fun betId w' => (∃ b, Placed i k round betId b w' ∧ b.betTransactionUuid = txUuid) ∧
        requestUuid.serial < w'.serial ∧ ¬ w'.RequestKnown requestUuid) w := by
    refine Go.request fun w₁ hr _ _ => ?_
    obtain ⟨hi, hreach, hsession⟩ := hbase hr hR
    have hnew : NewBet i k w₁ (GameEngine.newBet e p round.id
        (((w₁.engine? e).map fun engine => engine.cfg.commissionMicro).getD 0) txUuid w₁.now) :=
      ⟨howner, huse, hi, rfl, rfl, rfl, rfl, hsession, hreach, hk, rfl⟩
    have hmove : Move P i k w₁ _ := .addBet _ hnew
    have hq₁ : ¬ w₁.RequestKnown requestUuid := not_known_stable ho hr hq
    refine ⟨hmove, fun _ => ⟨⟨_, ⟨Table.getElem?_concat_length _ _, rfl, howner, rfl,
      hmove.later.reaches hreach⟩, rfl⟩, Nat.lt_of_lt_of_le hn hr.later.serial, hq₁⟩⟩
  refine Go.bind_iff.mpr (hadd.mono fun betId w ⟨⟨b, hb, htx⟩, hn, hq⟩ => ?_)
  subst htx
  exact askStake_go hb ho hn hq

/-- Checking the limits before taking the stake. -/
theorem checkLimits_go {session : GameSession} (hk : ∃ e params, k = .placeBet e params)
    (hi : NoBetYet i w) (hreach : w.Reaches k round.id)
    (hsession : ∃ s, w.sessions[p.sessionId]? = some s) :
    Walk P i k (GameEngine.checkLimits env e p round session) (fun _ _ => True) w := by
  have hstable : Stable P i k fun w => NoBetYet i w ∧ w.Reaches k round.id ∧
      ∃ s, w.sessions[p.sessionId]? = some s :=
    noBetYet_stable.and (.of_later fun hl ⟨hreach, s, hs⟩ => by
      obtain ⟨s', hs', -⟩ := hl.session hs
      exact ⟨hl.reaches hreach, s', hs'⟩)
  refine Walk.idle_bind (Idle.previousBet _ _ _ _) ⟨hi, hreach, hsession⟩ hstable
    fun previousBet w hR => ?_
  refine Walk.idle_bind Idle.now hR hstable fun now w hR => ?_
  refine Walk.idle_bind (Idle.checkRGLimits _ _ _ _ _) hR hstable fun rgCheck w hR => ?_
  split
  · exact takeStake_go hk hR.1 hR.2.1 hR.2.2
  · refine Walk.idle_bind (Idle.rejectBet _ _ _) hR hstable fun _ w _ => ?_
    split
    · refine Go.bind_iff.mpr (Go.modify fun w₁ _ _ _ => ⟨?_, fun _ => trivial⟩)
      exact updateSession_move _ fun s _ => ⟨.terminate s _ _, rfl⟩
    · trivial

/-- **Placing a bet.** -/
theorem placeBet_go (hi : NoBetYet i w) (he : w.Keyed e) :
    Walk P i (.placeBet e p) (GameEngine.placeBet env e p) (fun _ _ => True) w := by
  have hrefuse : ∀ {w : World} (reason : String) (remaining : Option Int) (a : Answer),
      Walk P i (.placeBet e p) (do
        GameEngine.rejectBet p.sessionId reason remaining
        pure a) (fun _ _ => True) w := fun reason remaining a =>
    Walk.of_idle (Prog.Keeps.bind (Idle.rejectBet _ _ _) fun _ => trivial)
  have hengine : Walk P i (.placeBet e p) (Action.engine e)
      (fun engine w' => NoBetYet i w' ∧ ∀ round, engine.bind Engine.active = some round →
        w'.Reaches (.placeBet e p) round.id) w := by
    refine Go.query (fun w => .idle (.refl w)) fun w₁ hr _ => ⟨noBetYet_stable hr hi, ?_⟩
    intro round hround
    obtain ⟨engine, hengine, hactive⟩ := Option.bind_eq_some_iff.mp hround
    refine ⟨hr.later.keyed he, mem_activeIds.mpr ⟨engine, hengine, ?_⟩⟩
    exact List.mem_map_of_mem (List.mem_of_getLast? hactive)
  refine Go.bind_iff.mpr (hengine.mono fun engine w hengine => ?_)
  obtain ⟨hi, hreach⟩ := hengine
  split
  · rename_i engine round hround
    have hbase : Stable P i (.placeBet e p) fun w => NoBetYet i w ∧
        w.Reaches (.placeBet e p) round.id :=
      noBetYet_stable.and (.of_later fun hl => hl.reaches)
    have hR := And.intro hi (hreach round hround)
    split
    · trivial
    split
    · trivial
    split
    · exact hrefuse _ _ _
    have hfind : Walk P i (.placeBet e p) (Action.findUnique World.sessions p.sessionId)
        (fun session w' => (NoBetYet i w' ∧ w'.Reaches (.placeBet e p) round.id) ∧
          w'.sessions[p.sessionId]? = session) w :=
      Go.query (fun w => .idle (.refl w)) fun w₁ hr _ => ⟨hbase hr hR, rfl⟩
    refine Go.bind_iff.mpr (hfind.mono fun session w ⟨hR, hsession⟩ => ?_)
    cases session with
    | none => exact hrefuse _ _ _
    | some session =>
        have hstable : Stable P i (.placeBet e p) fun w =>
            (NoBetYet i w ∧ w.Reaches (.placeBet e p) round.id) ∧
              ∃ s, w.sessions[p.sessionId]? = some s :=
          hbase.and (.of_later fun hl ⟨s, hs⟩ => by
            obtain ⟨s', hs', -⟩ := hl.session hs
            exact ⟨s', hs'⟩)
        refine Walk.idle_bind Idle.now ⟨hR, _, hsession⟩ hstable fun now w hR => ?_
        split
        · exact hrefuse _ _ _
        split
        · exact hrefuse _ _ _
        exact checkLimits_go ⟨e, p, rfl⟩ hR.1.1 hR.1.2 hR.2
  · trivial

end TakeStake

end YantraRgs
