import YantraRgs.Await.Watch
import YantraRgs.Conduct.Bookings
import YantraRgs.Conduct.Discreet

/-! # A bet is accepted after the operator took its stake

Only the call that places a bet asks for its stake, and it accepts the bet only on an answer that says
the stake is taken.

* **`World.Paid`** — the operator reported the stake of a bet as taken.
* **`StakeGuar`**, **`placeBet_stakes`** — what the call that places a bet keeps to.
* **`Move.stakes`** — every other call asks for no stake and accepts no bet. -/

namespace YantraRgs

open Await

/-- A request asks the player of a bet for its stake. -/
structure WalletRequest.Bills (req : WalletRequest) (b : Bet) : Prop where
  endpoint : req.endpoint = .bet
  transaction : req.transactionUuid = some b.betTransactionUuid
  player : req.playerRef = b.playerRef
  amount : req.amountMicro = some b.amountMicro

/-- **The operator reported the stake of a bet as taken**, in an answer to a request for it. -/
def World.Paid (w : World) (b : Bet) : Prop :=
  ∃ r ∈ w.replies, ∃ s, w.wire[r.sent]? = some s ∧ s.request.Bills b ∧
    isSuccessOrDuplicate r.status = true

section Stakes

variable {env : Env} {P : Policy} {i : Nat} {k : Call} {w w' : World} {α β : Type}

/-- What a request asks for does not change. -/
theorem WalletRequest.Bills.later {req : WalletRequest} {b b' : Bet} (h : req.Bills b)
    (hl : b.Later b') : req.Bills b' where
  endpoint := h.endpoint
  transaction := h.transaction.trans (congrArg some hl.betTransactionUuid.symm)
  player := h.player.trans (congrArg Prod.fst hl.terms).symm
  amount := h.amount.trans (congrArg (fun t => some t.2.2.2.1) hl.terms).symm

/-- What was reported stays reported. -/
theorem World.Paid.later {b b' : Bet} (h : w.Paid b) (hl : Later w w') (hb : b.Later b') :
    w'.Paid b' := by
  obtain ⟨r, hr, s, hs, hbills, hok⟩ := h
  exact ⟨r, hl.replies hr, s, hl.wire hs, hbills.later hb, hok⟩

/-- **What a call does about stakes**: a request that it hands over and that is a debit asks for the stake
of a bet, and a bet is taken only when its stake was. -/
structure StakeGuar (w w' : World) : Prop where
  billed : ∀ s ∈ w'.wire, s ∈ w.wire ∨ s.request.endpoint ≠ .bet ∨ ∃ b ∈ w'.bets, s.request.Bills b
  paid : ∀ {n : Nat} {b' : Bet}, w'.bets[n]? = some b' → b'.status.taken = true →
    (∃ b, w.bets[n]? = some b ∧ b.status.taken = true) ∨ w'.Paid b'

/-- **No stake is asked for, and no bet is taken.** -/
structure Untaken (w w' : World) : Prop where
  wire : w'.wire = w.wire
  taken : ∀ {n : Nat} {b' : Bet}, w'.bets[n]? = some b' → b'.status.taken = true →
    ∃ b, w.bets[n]? = some b ∧ b.status.taken = true

/-- The wire, the answers and the bets are left alone. -/
structure Unwritten (w w' : World) : Prop where
  wire : w'.wire = w.wire
  replies : w'.replies = w.replies
  bets : w'.bets = w.bets

theorem Untaken.guar (h : Untaken w w') : StakeGuar w w' :=
  ⟨fun _ hs => .inl (h.wire ▸ hs), fun hb ht => .inl (h.taken hb ht)⟩

theorem Unwritten.untaken (h : Unwritten w w') : Untaken w w' :=
  ⟨h.wire, fun hb ht => ⟨_, h.bets ▸ hb, ht⟩⟩

theorem Same.unwritten (h : Same w w') : Unwritten w w' := ⟨h.wire, h.replies, h.bets⟩

theorem Untaken.refl (w : World) : Untaken w w := ⟨rfl, fun hb ht => ⟨_, hb, ht⟩⟩

theorem Idle.untaken {p : Action α} (hp : Idle p) : p.Keeps Untaken := hp.mono fun h => h.unwritten.untaken

/-- A bet that is rejected is not taken. -/
theorem Untaken.reject (w : World) (id : Nat) :
    Untaken w (w.updateBet id fun b => { b with status := .rejected }) where
  wire := rfl
  taken {n b'} hb ht := by
    rw [World.updateBet, List.getElem?_modify] at hb
    obtain ⟨b, hrow, rfl⟩ := Option.map_eq_some_iff.mp hb
    refine ⟨b, hrow, ?_⟩
    by_cases hid : id = n
    · rw [if_pos hid] at ht
      cases ht
    · rwa [if_neg hid] at ht

/-- A bet that is pending is not taken. -/
theorem Untaken.addBet (w : World) {b : Bet} (h : b.status = .pending) : Untaken w (w.addBet b) where
  wire := rfl
  taken {n b'} hb ht := by
    rcases Table.getElem?_concat_cases hb with hb | ⟨-, rfl⟩
    · exact ⟨b', hb, ht⟩
    · rw [h] at ht
      cases ht

/-- The rules for stakes. -/
def stakeRules (env : Env) (_ : Nat) (_ : Call) : Rules World where
  inv := Sound (.free env)
  permit _ _ := True
  rely := Later
  guar := StakeGuar

/-- A call goes on by the rules for stakes. -/
abbrev Stakes (env : Env) (i : Nat) (k : Call) (p : Action α) (Q : α → World → Prop) (w : World) : Prop :=
  Go (stakeRules env i k) i p Q w

/-- A program that takes no stake. -/
theorem Stakes.of_untaken {p : Action α} (hp : p.Keeps Untaken) :
    Stakes env i k p (fun _ _ => True) w :=
  Go.keeps (R := fun _ => True) hp trivial (fun _ h => h) fun _ h => ⟨h.guar, trivial⟩

/-- A program that takes no stake, and what follows it. -/
theorem Stakes.untaken_bind {p : Action α} {f : α → Action β} {Q : β → World → Prop}
    (hp : p.Keeps Untaken) (hf : ∀ a w, Stakes env i k (f a) Q w) : Stakes env i k (p >>= f) Q w :=
  Go.bind_iff.mpr ((Stakes.of_untaken hp).mono fun a w _ => hf a w)

/-- What is known of a bet is known after a program that leaves the stakes alone. -/
theorem Stakes.unwritten {R : World → Prop} {p : Action α} (hp : p.Keeps Unwritten) (hR : R w)
    (hlater : ∀ {w w'}, Later w w' → R w → R w') (hkept : ∀ {w w'}, Unwritten w w' → R w → R w') :
    Stakes env i k p (fun _ => R) w :=
  Go.keeps hp hR (fun hr h => hlater hr h) fun h hs => ⟨hs.untaken.guar, hkept hs h⟩

/-! ## Asking for the stake -/

section TakeStake

variable {e : EngineRef} {p : PlaceBetParams} {round : ActiveRound} {betId : Nat} {req : WalletRequest}

/-- The request asks for the stake of bet `betId`. -/
def World.BilledBy (w : World) (betId : Nat) (req : WalletRequest) : Prop :=
  ∃ b, w.bets[betId]? = some b ∧ req.Bills b

theorem World.BilledBy.later (h : w.BilledBy betId req) (hl : Later w w') : w'.BilledBy betId req := by
  obtain ⟨b, hb, hbills⟩ := h
  obtain ⟨b', hb', hbl⟩ := hl.bet hb
  exact ⟨b', hb', hbills.later hbl⟩

theorem World.BilledBy.unwritten (h : w.BilledBy betId req) (hs : Unwritten w w') :
    w'.BilledBy betId req := by
  obtain ⟨b, hb, hbills⟩ := h
  exact ⟨b, hs.bets ▸ hb, hbills⟩

/-- The request for the stake of bet `betId` is at place `sent` of the wire. -/
def World.BilledAt (w : World) (betId : Nat) (req : WalletRequest) (sent : Nat) : Prop :=
  w.BilledBy betId req ∧ ∃ s, w.wire[sent]? = some s ∧ s.request = req

theorem World.BilledAt.later {sent : Nat} (h : w.BilledAt betId req sent) (hl : Later w w') :
    w'.BilledAt betId req sent := by
  obtain ⟨hbilled, s, hs, hreq⟩ := h
  exact ⟨hbilled.later hl, s, hl.wire hs, hreq⟩

theorem World.BilledAt.unwritten {sent : Nat} (h : w.BilledAt betId req sent) (hs : Unwritten w w') :
    w'.BilledAt betId req sent := by
  obtain ⟨hbilled, s, hrow, hreq⟩ := h
  exact ⟨hbilled.unwritten hs, s, hs.wire ▸ hrow, hreq⟩

theorem Unwritten.told {n : Nat} {res : WalletResponse} (h : Unwritten w w') (ht : w.Told n res) :
    w'.Told n res :=
  ht.imp_right (Or.imp_right fun ⟨r, hr, hs⟩ => ⟨r, h.replies ▸ hr, hs⟩)

/-- The stake of bet `betId` was reported as taken. -/
def World.PaidBet (w : World) (betId : Nat) : Prop := ∃ b, w.bets[betId]? = some b ∧ w.Paid b

theorem World.PaidBet.later (h : w.PaidBet betId) (hl : Later w w') : w'.PaidBet betId := by
  obtain ⟨b, hb, hpaid⟩ := h
  obtain ⟨b', hb', hbl⟩ := hl.bet hb
  exact ⟨b', hb', hpaid.later hl hbl⟩

/-- An answer of success to the request for a stake says that it was taken. -/
theorem World.BilledAt.paid {sent : Nat} {res : WalletResponse} (h : w.BilledAt betId req sent)
    (ht : w.Told sent res) (hok : isSuccessOrDuplicate res.status = true) : w.PaidBet betId := by
  obtain ⟨⟨b, hb, hbills⟩, s, hs, rfl⟩ := h
  rcases ht with ht | ht | ⟨r, hr, rfl, hstatus⟩
  · rw [ht] at hok
    cases hok
  · rw [ht] at hok
    cases hok
  · exact ⟨b, hb, r, hr, s, hs, hbills, hstatus ▸ hok⟩

/-- **Asking the operator for the stake of a bet.** -/
theorem invoke_stakes (client : WalletClient) (audit : AuditContext) (h : w.BilledBy betId req) :
    Stakes env i k (client.invoke env req audit) (fun res w' =>
      isSuccessOrDuplicate res.status = true → w'.PaidBet betId) w := by
  have hbilled : ∀ {α : Type} {p : Action α} {w : World}, p.Keeps Unwritten → w.BilledBy betId req →
      Stakes env i k p (fun _ w' => w'.BilledBy betId req) w := fun hp h =>
    Stakes.unwritten hp h (fun hl h => h.later hl) fun hs h => h.unwritten hs
  refine Go.bind_iff.mpr ((hbilled ((Idle.tryAcquire client _).mono Same.unwritten) h).mono
    fun decision w h => ?_)
  split
  · exact fun hok => by cases hok
  refine Go.bind_iff.mpr ((hbilled (Idle.now.mono Same.unwritten) h).mono fun started w h => ?_)
  have hrow : (Action.createWalletCall (client.journalRow req audit)).Keeps Unwritten := by
    refine Prog.Keeps.lift fun i c w a w' h => ?_
    split at h <;> obtain rfl := congrArg Prod.snd (Option.some.inj h) <;> exact ⟨rfl, rfl, rfl⟩
  refine Go.bind_iff.mpr ((hbilled hrow h).mono fun call w h => ?_)
  -- the request is handed over
  have hhand : Stakes env i k (Action.handOver req (audit.attempt.getD 1) call)
      (fun sent w' => w'.BilledAt betId req sent) w := by
    refine Go.request fun w₁ hr _ _ => ?_
    obtain ⟨b, hb, hbills⟩ := h.later hr
    refine ⟨⟨fun s hs => ?_, fun hb ht => .inl ⟨_, hb, ht⟩⟩, fun _ => ⟨⟨b, hb, hbills⟩,
      ⟨req, audit.attempt.getD 1, call, i⟩, ?_, rfl⟩⟩
    · rcases List.mem_append.mp hs with hs | hs
      · exact .inl hs
      · obtain rfl := List.mem_singleton.mp hs
        exact .inr (.inr ⟨b, List.mem_of_getElem? hb, hbills⟩)
    · exact Table.getElem?_concat_length _ _
  refine Go.bind_iff.mpr (hhand.mono fun sent w h => ?_)
  have hreply : Stakes env i k (Action.awaitReply req sent)
      (fun res w' => w'.BilledAt betId req sent ∧ w'.Told sent res) w := by
    refine Go.lift fun w₁ hr _ c res w₂ hrun _ => ?_
    obtain ⟨rfl, htold⟩ := awaitReply_told hrun
    exact ⟨(Untaken.refl w₁).guar, fun _ => ⟨h.later hr, htold⟩⟩
  refine Go.bind_iff.mpr (hreply.mono fun res w h => ?_)
  -- what is left notes the answer
  have htold : ∀ {α : Type} {p : Action α} {w : World}, Idle p →
      w.BilledAt betId req sent ∧ w.Told sent res → Stakes env i k p
        (fun _ w' => w'.BilledAt betId req sent ∧ w'.Told sent res) w := fun hp h =>
    Stakes.unwritten (hp.mono Same.unwritten) h (fun hl h => ⟨h.1.later hl, hl.told h.2⟩)
      fun hs h => ⟨h.1.unwritten hs, hs.told h.2⟩
  refine Go.bind_iff.mpr ((htold Idle.now h).mono fun ended w h => ?_)
  refine Go.bind_iff.mpr ((htold (Idle.record client _ _) h).mono fun _ w h => ?_)
  cases call with
  | none => exact h.1.paid h.2
  | some id =>
      exact Go.bind_iff.mpr ((htold (Prog.Keeps.catching Same.refl _
        (Idle.journalAnswer client env _ id res _)) h).mono fun _ w h => h.1.paid h.2)

/-- **Accepting a bet whose stake was taken.** -/
theorem acceptBet_stakes {roundId : Nat} {res : WalletResponse} (h : w.PaidBet betId) :
    Stakes env i k (GameEngine.acceptBet e p roundId betId res) (fun _ _ => True) w := by
  have haccept : Stakes env i k
      (Prog.modify fun w => w.updateBet betId fun b => { b with status := .accepted })
      (fun _ _ => True) w := by
    refine Go.modify fun w₁ hr _ _ => ⟨⟨fun _ hs => .inl hs, fun {n b'} hb ht => ?_⟩, fun _ => trivial⟩
    obtain ⟨b, hrow, r, hreply, s, hs, hbills, hok⟩ := h.later hr
    rw [World.updateBet, List.getElem?_modify] at hb
    obtain ⟨b₀, hb₀, rfl⟩ := Option.map_eq_some_iff.mp hb
    by_cases hid : betId = n
    · subst hid
      obtain rfl := Option.some.inj (hrow.symm.trans hb₀)
      rw [if_pos rfl]
      exact .inr ⟨r, hreply, s, hs, ⟨hbills.endpoint, hbills.transaction, hbills.player,
        hbills.amount⟩, hok⟩
    · rw [if_neg hid] at ht
      exact .inl ⟨b₀, hb₀, ht⟩
  refine Go.bind_iff.mpr (haccept.mono fun _ w _ => Stakes.of_untaken ?_)
  refine Prog.Keeps.bind (Prog.Keeps.modify fun _ => ⟨rfl, fun hb ht => ⟨_, hb, ht⟩⟩) fun _ => ?_
  refine Prog.Keeps.bind (Prog.Keeps.modify fun _ => ⟨rfl, fun hb ht => ⟨_, hb, ht⟩⟩) fun _ => ?_
  exact Prog.Keeps.bind (Idle.emit _ _).untaken fun _ =>
    Prog.Keeps.bind (Idle.engineEmit _ _).untaken fun _ =>
      Prog.Keeps.bind (Idle.emitPoolUpdate _ _).untaken fun _ => trivial

theorem declineBet_untaken {status : RsStatus} :
    (GameEngine.declineBet p betId status).Keeps Untaken :=
  Prog.Keeps.bind (Prog.Keeps.modify fun w => .reject w betId) fun _ =>
    Prog.Keeps.bind (Idle.emit _ _).untaken fun _ => trivial

theorem compensateBet_untaken {roundId : Nat} {txUuid : Uuid} {res : WalletResponse} :
    (GameEngine.compensateBet e p roundId betId txUuid res).Keeps Untaken := by
  refine Prog.Keeps.bind (Prog.Keeps.modify fun w => .reject w betId) fun _ => ?_
  refine Prog.Keeps.bind (Idle.newUuid _).untaken fun requestUuid => ?_
  refine Prog.Keeps.bind (Idle.newUuid _).untaken fun transactionUuid => ?_
  refine Prog.Keeps.bind (Prog.Keeps.modify fun _ => ⟨rfl, fun hb ht => ⟨_, hb, ht⟩⟩) fun _ => ?_
  exact Prog.Keeps.bind (Idle.emit _ _).untaken fun _ => trivial

/-- **Taking the stake of a bet.** -/
theorem takeStake_stakes : Stakes env i k (GameEngine.takeStake env e p round) (fun _ _ => True) w := by
  refine Stakes.untaken_bind (Idle.newUuid _).untaken fun txUuid w => ?_
  refine Stakes.untaken_bind (Idle.newUuid _).untaken fun requestUuid w => ?_
  have hadd : Stakes env i k (Prog.request fun _ w =>
      let commissionMicro := ((w.engine? e).map fun engine => engine.cfg.commissionMicro).getD 0
      (w.bets.length, w.addBet (GameEngine.newBet e p round.id commissionMicro txUuid w.now)))
      (fun betId w' => w'.BilledBy betId (GameEngine.betRequest e p round.id requestUuid txUuid)) w := by
    refine Go.request fun w₁ _ _ _ => ⟨(Untaken.addBet w₁ rfl).guar, fun _ => ?_⟩
    exact ⟨_, Table.getElem?_concat_length _ _, rfl, rfl, rfl, rfl⟩
  refine Go.bind_iff.mpr (hadd.mono fun betId w hbilled => ?_)
  refine Go.bind_iff.mpr ((invoke_stakes _ _ hbilled).mono fun res w hpaid => ?_)
  split
  · exact acceptBet_stakes (hpaid ‹_›)
  split
  · exact Stakes.of_untaken declineBet_untaken
  · exact Stakes.of_untaken compensateBet_untaken

/-- Checking the limits before taking the stake. -/
theorem checkLimits_stakes {session : GameSession} :
    Stakes env i k (GameEngine.checkLimits env e p round session) (fun _ _ => True) w := by
  refine Stakes.untaken_bind (Idle.previousBet _ _ _ _).untaken fun previousBet w => ?_
  refine Stakes.untaken_bind Idle.now.untaken fun now w => ?_
  refine Stakes.untaken_bind (Idle.checkRGLimits _ _ _ _ _).untaken fun rgCheck w => ?_
  split
  · exact takeStake_stakes
  dsimp only
  refine Stakes.untaken_bind (Idle.emit _ _).untaken fun _ w => ?_
  split
  · exact Stakes.untaken_bind (Prog.Keeps.modify fun _ => ⟨rfl, fun hb ht => ⟨_, hb, ht⟩⟩)
      fun _ _ => trivial
  · trivial

/-- **Placing a bet.** -/
theorem placeBet_stakes : Stakes env i k (GameEngine.placeBet env e p) (fun _ _ => True) w := by
  have hreject : ∀ reason w, Stakes env i k (GameEngine.rejectBet p.sessionId reason none >>= fun _ =>
      (pure (Answer.refused reason) : Action Answer)) (fun _ _ => True) w := fun reason w =>
    Stakes.untaken_bind (Idle.emit _ _).untaken fun _ _ => trivial
  refine Stakes.untaken_bind (Idle.engine e).untaken fun engine w => ?_
  split
  · split
    · trivial
    split
    · trivial
    split
    · exact hreject _ _
    refine Stakes.untaken_bind (Idle.findUnique _ _).untaken fun session w => ?_
    split
    · exact hreject _ _
    refine Stakes.untaken_bind Idle.now.untaken fun now w => ?_
    split
    · exact hreject _ _
    split
    · exact hreject _ _
    · exact checkLimits_stakes
  · trivial

/-- **The call that places a bet**, and its answer. -/
theorem code_stakes {e : EngineRef} {params : PlaceBetParams} (hk : k = .placeBet e params) :
    Stakes env i k (k.code env) (fun _ _ => True) w := by
  subst hk
  refine Go.bind_iff.mpr (placeBet_stakes.mono fun x w _ => ?_)
  exact Go.request fun w₁ _ _ _ => ⟨⟨fun _ hs => .inl hs, fun hb ht => .inl ⟨_, hb, ht⟩⟩,
    fun _ => trivial⟩

end TakeStake

/-! ## The other calls -/

/-- **Every other call asks for no stake and accepts no bet**, where the bets of call `i` are none. -/
theorem Move.stakes (h : Move P i k w w') (hs : Sound P w)
    (hnone : ∀ b ∈ w.bets, b.betTransactionUuid.owner ≠ i) : StakeGuar w w' where
  billed s hmem := by
    rcases h.wire_cases with ⟨hwire, -⟩ | ⟨t, rfl, hh, -⟩
    · exact .inl (hwire ▸ hmem)
    rcases List.mem_append.mp hmem with hmem | hmem
    · exact .inl hmem
    obtain rfl := List.mem_singleton.mp hmem
    cases hh with
    | stake b hb hi => exact absurd hi (hnone b hb)
    | credit _ _ _ _ _ hwin => exact .inr (.inl fun hbet => nomatch hwin.symm.trans hbet)
    | job j hj hreq =>
        obtain ⟨b, -, -, hpurpose⟩ := hs.jobBet hj.1
        have hend := (PendingWalletJob.request_fields hreq).2.1
        refine .inr (.inl fun hbet => ?_)
        rcases hpurpose with ⟨he, -⟩ | ⟨he, -⟩ <;> exact nomatch (hbet.symm.trans hend).trans he
  paid {n b'} hb ht := by
    rcases h.bet_origin hb with ⟨b, hrow, rfl | ⟨hstep, -⟩⟩ | ⟨-, hnew⟩
    · exact .inl ⟨_, hrow, ht⟩
    · refine .inl ⟨b, hrow, ?_⟩
      cases hstep with
      | accept hi => exact absurd hi (hnone b (List.mem_of_getElem? hrow))
      | reject => cases ht
      | _ => assumption
    · rw [hnew.status] at ht
      cases ht

end Stakes

end YantraRgs
