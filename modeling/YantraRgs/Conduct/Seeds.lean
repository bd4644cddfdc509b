import YantraRgs.Await.Watch
import YantraRgs.Conduct.Discreet
import YantraRgs.Conduct.Endpoints
import YantraRgs.Conduct.Pace

/-! # Who tells a server seed

A server seed is told by the answers to proofs, replays and dispute packs of rounds that are over, and to
the rotation of the seed of a session. A turn of the loop makes its round under the seed of a session
that it read before.

* **`World.Disclosed`**, **`World.Asks`** — the seeds that were told; the sessions a call asks a seed of.
* **`SeedGuar`**, **`code_tells`** — every call tells only seeds that it asks for.
* **`TurnRely`**, **`turn_go`** — a turn makes its round under a seed that was not told, as long as nobody
  tells a seed of its engine's sessions meanwhile. -/

namespace YantraRgs

open Await

/-- The server seed that an answer reveals. -/
def Answer.reveals : Answer → Option Seed
  | .seedRotated revealedServerSeed _ => some revealedServerSeed
  | .proof shown => shown.serverSeed
  | .replay bundle => bundle.serverSeed
  | .disputePack pack => pack.round.serverSeed
  | _ => none

namespace World

variable (w : World)

/-- A server seed was told to somebody. -/
def Disclosed (seed : Seed) : Prop := ∃ x ∈ w.answers, x.2.reveals = some seed

/-- A session is one under which the engines of a key make their rounds. -/
def EngineSession (key : EngineKey) (id : Nat) : Prop :=
  ∃ s ∈ w.sessions[id]?, s.identity = key.session

/-- A session is there, and it is none of an engine of the key. -/
def ForeignSession (key : EngineKey) (id : Nat) : Prop :=
  ∃ s ∈ w.sessions[id]?, s.identity ≠ key.session

/-- Round `roundId` is over, it is one of session `id`, and it satisfies `f`. -/
def OverIn (id roundId : Nat) (f : Round → Prop) : Prop :=
  ∃ r ∈ w.rounds[roundId]?, f r ∧ r.settled = true ∧ r.sessionId = id

/-- **The sessions a call asks a seed of**: those of the rounds that are over which it shows, and the one
that it rotates. -/
def Asks (k : Call) (id : Nat) : Prop :=
  match k with
  | .rotateSeed sessionId _ operatorId =>
      sessionId = id ∧ ∃ s ∈ w.sessions[id]?, ∀ op ∈ operatorId, op = s.operatorId
  | .roundProof roundId operatorId => w.OverIn id roundId fun r => ∀ op ∈ operatorId, op = r.operatorId
  | .roundReplay roundId operatorId => w.OverIn id roundId fun r => r.operatorId = operatorId
  | .disputePack operatorId transactionUuid => ∃ b ∈ w.bets, b.operatorId = operatorId ∧
      b.hasTransaction transactionUuid = true ∧ w.OverIn id b.roundId fun _ => True
  | _ => False

/-- Every seed that was told was drawn before. -/
def DisclosedBound : Prop := ∀ seed, w.Disclosed seed → seed.serial < w.serial

/-- Every round whose state reveals its seed is settled. -/
def OverSettled : Prop := ∀ r ∈ w.rounds, r.state.terminal = true → r.settled = true

/-- **The seed of every session that the next turn of an engine may use was not told.** -/
def Unspent (key : EngineKey) : Prop :=
  ∀ (id : Nat) (s : GameSession), w.sessions[id]? = some s →
    s.identity = key.session → s.terminatedAt = none →
      w.now < s.expiresAt → ¬ w.Disclosed s.serverSeed

end World

/-- A dispute pack finds its bet by the same transaction as before. -/
def KeptTransactions (k : Call) (w w' : World) : Prop :=
  match k with
  | .disputePack _ transactionUuid => ∀ n < w.bets.length, ∀ b ∈ w.bets[n]?, ∀ b' ∈ w'.bets[n]?,
      b.hasTransaction transactionUuid = true → b'.hasTransaction transactionUuid = true
  | _ => True

section Asks

variable {env : Env} {i : Nat} {k : Call} {w w' : World} {α : Type}

theorem World.Disclosed.of_answers {seed : Seed} (h : w.Disclosed seed) (hx : ∀ x ∈ w.answers, x ∈ w'.answers) :
    w'.Disclosed seed := by
  obtain ⟨x, hmem, hreveals⟩ := h
  exact ⟨x, hx x hmem, hreveals⟩

theorem World.OverIn.later {id roundId : Nat} {f : Round → Prop} (h : w.OverIn id roundId f)
    (hl : Later w w') (hf : ∀ r r' : Round, r.Later r' → f r → f r') : w'.OverIn id roundId f := by
  obtain ⟨r, hr, hfr, hsettled, hsession⟩ := h
  obtain ⟨r', hr', hlater⟩ := hl.round hr
  exact ⟨r', hr', hf r r' hlater hfr, hlater.settled hsettled, hlater.sessionId.trans hsession⟩

/-- What a call asks for, it asks for from then on. -/
theorem World.Asks.later {id : Nat} (h : w.Asks k id) (hl : Later w w')
    (hkept : KeptTransactions k w w') : w'.Asks k id := by
  have hop : ∀ {r r' : Round}, r.Later r' → r'.operatorId = r.operatorId := fun hlater =>
    congrArg EngineKey.operatorId hlater.key
  cases k with
  | rotateSeed sessionId clientSeed operatorId =>
      obtain ⟨rfl, s, hs, hmatch⟩ := h
      obtain ⟨s', hs', hid⟩ := hl.session hs
      refine ⟨rfl, s', hs', fun op ho => (hmatch op ho).trans ?_⟩
      exact (congrArg Prod.fst hid).symm
  | roundProof roundId operatorId =>
      exact World.OverIn.later h hl fun r r' hlater hmatch op ho => (hmatch op ho).trans (hop hlater).symm
  | roundReplay roundId operatorId =>
      exact World.OverIn.later h hl fun r r' hlater hmatch => (hop hlater).trans hmatch
  | disputePack operatorId transactionUuid =>
      obtain ⟨b, hb, hmatch, htx, hover⟩ := h
      obtain ⟨n, hn⟩ := List.mem_iff_getElem?.mp hb
      obtain ⟨b', hb', hlater⟩ := hl.bet hn
      refine ⟨b', List.mem_of_getElem? hb', ?_, ?_, ?_⟩
      · exact (congrArg Prod.fst hlater.identity).trans hmatch
      · exact hkept n (List.getElem?_eq_some_iff.mp hn).1 b hn b' hb' htx
      · rw [hlater.roundId]
        exact hover.later hl fun _ _ _ h => h
  | _ => exact h

/-- A call asks a seed of a session that is there. -/
theorem World.Asks.session {P : Policy} {id : Nat} (h : w.Asks k id) (hs : Sound P w) :
    ∃ s, w.sessions[id]? = some s := by
  have hover : ∀ {roundId : Nat} {f : Round → Prop}, w.OverIn id roundId f →
      ∃ s, w.sessions[id]? = some s := by
    rintro roundId f ⟨r, hr, -, -, rfl⟩
    obtain ⟨s, hs, -⟩ := hs.roundEngine (List.mem_of_getElem? hr)
    exact ⟨s, hs⟩
  cases k with
  | rotateSeed sessionId clientSeed operatorId =>
      obtain ⟨-, s, hs, -⟩ := h
      exact ⟨s, hs⟩
  | roundProof roundId operatorId | roundReplay roundId operatorId => exact hover h
  | disputePack operatorId transactionUuid =>
      obtain ⟨b, -, -, -, hb⟩ := h
      exact hover hb
  | _ => exact h.elim

/-! ## Telling a seed -/

/-- What a call may rely on that tells a seed. -/
structure SeedRely (k : Call) (w w' : World) : Prop where
  later : Later w w'
  kept : KeptTransactions k w w'

/-- **A call tells only seeds that it asks for.** -/
def SeedGuar (k : Call) (w w' : World) : Prop :=
  ∀ x ∈ w'.answers, x ∈ w.answers ∨
    ∀ seed ∈ x.2.reveals, seed.serial < w.serial ∧ w.Asks k seed.session

/-- The rules for telling seeds. -/
def seedRules (env : Env) (_ : Nat) (k : Call) : Rules World where
  inv w := Sound (.free env) w ∧ w.OverSettled
  permit _ _ := True
  rely := SeedRely k
  guar := SeedGuar k

/-- A call goes on by the rules for telling seeds. -/
abbrev Tells (env : Env) (i : Nat) (k : Call) (p : Action α) (Q : α → World → Prop) (w : World) : Prop :=
  Go (seedRules env i k) i p Q w

theorem KeptTransactions.refl (k : Call) (w : World) : KeptTransactions k w w := by
  cases k with
  | disputePack operatorId transactionUuid =>
      intro n _ b hb b' hb' h
      obtain rfl := Option.some.inj (hb.symm.trans hb')
      exact h
  | _ => trivial

theorem KeptTransactions.trans {a b c : World} (h : KeptTransactions k a b)
    (h' : KeptTransactions k b c) (hab : Later a b) : KeptTransactions k a c := by
  cases k with
  | disputePack operatorId transactionUuid =>
      intro n hn x hx z hz hmatch
      obtain ⟨y, hy, -⟩ := hab.bet hx
      exact h' n (List.getElem?_eq_some_iff.mp hy).1 y hy z hz (h n hn x hx y hy hmatch)
  | _ => trivial

theorem SeedRely.refl (k : Call) (w : World) : SeedRely k w w := ⟨.refl w, .refl k w⟩

theorem SeedRely.trans {a b c : World} (h : SeedRely k a b) (h' : SeedRely k b c) : SeedRely k a c :=
  ⟨h.later.trans h'.later, h.kept.trans h'.kept h.later⟩

theorem Unanswered.seedGuar (h : Unanswered w w') : SeedGuar k w w' := fun _ hx => .inl (h ▸ hx)

/-- A program that answers nobody tells no seed. -/
theorem Tells.of_unanswered {p : Action α} (hp : p.Keeps Unanswered) :
    Tells env i k p (fun _ _ => True) w :=
  Go.keeps (R := fun _ => True) hp trivial (fun _ h => h) fun _ h => ⟨h.seedGuar, trivial⟩

/-- The seed, if any, that a call may tell. -/
def Tellable (k : Call) (seed : Option Seed) (w : World) : Prop :=
  ∀ x ∈ seed, x.serial < w.serial ∧ w.Asks k x.session

theorem Tellable.rely {seed : Option Seed} (h : Tellable k seed w) (hr : SeedRely k w w') :
    Tellable k seed w' := fun x hx =>
  ⟨Nat.lt_of_lt_of_le (h x hx).1 hr.later.serial, (h x hx).2.later hr.later hr.kept⟩

/-- What may be told may be told after an idle program. -/
theorem Tells.idle {seed : Option Seed} {p : Action α} (hp : Idle p) (h : Tellable k seed w) :
    Tells env i k p (fun _ => Tellable k seed) w := by
  refine Go.keeps (R := Tellable k seed) hp h (fun hr h => h.rely hr) fun h hs => ?_
  refine ⟨Unanswered.seedGuar hs.answers, h.rely ⟨hs.toAlike.later, ?_⟩⟩
  cases k with
  | disputePack operatorId transactionUuid =>
      intro n _ b hb b' hb' hmatch
      obtain rfl := Option.some.inj (hb.symm.trans (hs.bets ▸ hb'))
      exact hmatch
  | _ => trivial

/-- **A call answers**, with a seed that it may tell or none. -/
theorem Tells.answer {x : Answer} (h : Tellable k x.reveals w) :
    Tells env i k (Action.answer x) (fun _ _ => True) w := by
  refine Go.request fun w₁ hr _ _ => ⟨fun y hy => ?_, fun _ => trivial⟩
  rcases List.mem_append.mp hy with hy | hy
  · exact .inl hy
  · obtain rfl := List.mem_singleton.mp hy
    exact .inr (h.rely hr)

/-- A call that answers with no seed. -/
theorem Tells.then_answer {p : Action Answer} (hp : p.Keeps Discreet)
    (hr : p.Returns fun x => x.reveals = none) :
    Tells env i k (p >>= Action.answer) (fun _ _ => True) w := by
  refine Go.bind_iff.mpr (((Tells.of_unanswered (hp.mono Discreet.unanswered)).returns hr).mono
    fun x w hx => Tells.answer fun seed hseed => ?_)
  rw [hx.1] at hseed
  cases hseed

/-! ### Answers that reveal nothing -/

section Reveals

variable {e : EngineRef}

theorem takeStake_reveals (p : PlaceBetParams) (round : ActiveRound) :
    (GameEngine.takeStake env e p round).Returns fun x => x.reveals = none := by
  refine Prog.Returns.then fun txUuid => Prog.Returns.then fun requestUuid => ?_
  refine Prog.Returns.then fun betId => Prog.Returns.then fun res => ?_
  split
  · exact Prog.Returns.then fun _ => Prog.Returns.then fun _ => Prog.Returns.then fun _ =>
      Prog.Returns.then fun _ => Prog.Returns.then fun _ => Prog.Returns.then fun _ => rfl
  split
  · exact Prog.Returns.then fun _ => Prog.Returns.then fun _ => rfl
  · exact Prog.Returns.then fun _ => Prog.Returns.then fun _ => Prog.Returns.then fun _ =>
      Prog.Returns.then fun _ => Prog.Returns.then fun _ => rfl

theorem placeBet_reveals (p : PlaceBetParams) :
    (GameEngine.placeBet env e p).Returns fun x => x.reveals = none := by
  refine Prog.Returns.then fun engine => ?_
  split
  · split
    · rfl
    split
    · rfl
    split
    · exact Prog.Returns.then fun _ => rfl
    refine Prog.Returns.then fun session => ?_
    split
    · exact Prog.Returns.then fun _ => rfl
    refine Prog.Returns.then fun now => ?_
    split
    · exact Prog.Returns.then fun _ => rfl
    split
    · exact Prog.Returns.then fun _ => rfl
    refine Prog.Returns.then fun previousBet => Prog.Returns.then fun now => ?_
    refine Prog.Returns.then fun rgCheck => ?_
    split
    · exact takeStake_reveals _ _
    dsimp only
    refine Prog.Returns.then fun _ => ?_
    split
    · exact Prog.Returns.then fun _ => rfl
    · rfl
  · rfl

theorem cashOutBet_reveals (p : CashOutParams) :
    (GameEngine.cashOutBet env e p).Returns fun x => x.reveals = none := by
  refine Prog.Returns.then fun engine => ?_
  split
  · split
    · rfl
    refine Prog.Returns.then fun bet => ?_
    split
    · rfl
    split
    · rfl
    split
    · rfl
    unfold GameEngine.cashOutAccepted
    dsimp only
    split
    · rfl
    refine Prog.Returns.then fun now => Prog.Returns.then fun engine => ?_
    split
    · split
      · exact Prog.Returns.then fun _ => rfl
      split
      · exact Prog.Returns.then fun _ => Prog.Returns.then fun _ => Prog.Returns.then fun _ =>
          Prog.Returns.then fun _ => Prog.Returns.then fun _ => Prog.Returns.then fun _ =>
            Prog.Returns.then fun _ => rfl
      · rfl
    · rfl
  · rfl

theorem cashOut_reveals (p : CashOutParams) :
    (GameEngine.cashOut env e p).Returns fun x => x.reveals = none := by
  refine Prog.Returns.then fun engine => ?_
  split
  · exact cashOutBet_reveals _
  · rfl

end Reveals

/-! ### The requests that tell seeds -/

/-- A round that is over may be shown. -/
theorem Tellable.revealed {id : Nat} {r : Round} {f : Round → Prop} (hs : Sound (.free env) w)
    (hover : w.OverSettled) (hr : w.rounds[id]? = some r) (hf : f r)
    (hasks : ∀ session, w.OverIn session id f → w.Asks k session) : Tellable k r.revealed w := by
  intro seed hseed
  have hmem := List.mem_of_getElem? hr
  rw [Round.revealed] at hseed
  split at hseed
  · rename_i hterminal
    obtain rfl := Option.some.inj hseed
    exact ⟨hs.roundSeed hmem, hasks _ ⟨r, hr, hf, hover r hmem hterminal, (hs.roundOwner hmem).symm⟩⟩
  · cases hseed

theorem forRound_tells {roundId : Nat} {operatorId : Option OperatorId} :
    Tells env i (.roundProof roundId operatorId)
      (ProofService.forRound roundId operatorId >>= Action.answer) (fun _ _ => True) w := by
  have hread : Tells env i (.roundProof roundId operatorId) (ProofService.forRound roundId operatorId)
      (fun x => Tellable (.roundProof roundId operatorId) x.reveals) w := by
    refine Go.bind_iff.mpr (Go.query (fun w => Unanswered.seedGuar rfl) fun w₁ _ hi => ?_)
    split
    · exact fun _ hseed => by cases hseed
    · rename_i r hr
      obtain ⟨hrow, hop⟩ := Option.filter_eq_some_iff.mp hr
      refine Tellable.revealed hi.1 hi.2 hrow (fun op ho => ?_) fun _ h => h
      exact of_decide_eq_true ((Option.all_eq_true ..).mp hop op ho)
  exact Go.bind_iff.mpr (hread.mono fun x w h => Tells.answer h)

theorem roundReplay_tells {roundId : Nat} {operatorId : OperatorId} :
    Tells env i (.roundReplay roundId operatorId)
      (YantraRgs.roundReplay env roundId operatorId >>= Action.answer) (fun _ _ => True) w := by
  have hread : Tells env i (.roundReplay roundId operatorId)
      (YantraRgs.roundReplay env roundId operatorId)
      (fun x => Tellable (.roundReplay roundId operatorId) x.reveals) w := by
    refine Go.bind_iff.mpr (Go.query (fun w => Unanswered.seedGuar rfl) fun w₁ _ hi => ?_)
    dsimp only
    split
    · exact fun _ hseed => by cases hseed
    · rename_i r hr
      obtain ⟨hrow, hop⟩ := Option.filter_eq_some_iff.mp hr
      have hseed : Tellable (.roundReplay roundId operatorId) r.revealed w₁ :=
        Tellable.revealed hi.1 hi.2 hrow (of_decide_eq_true hop) fun _ h => h
      exact Go.bind_iff.mpr ((Tells.idle (Idle.findGameConfig _ _ _) hseed).mono fun _ w h => h)
  exact Go.bind_iff.mpr (hread.mono fun x w h => Tells.answer h)

theorem buildDisputePack_tells {operatorId : OperatorId} {transactionUuid : Uuid} :
    Tells env i (.disputePack operatorId transactionUuid)
      (buildDisputePack env operatorId transactionUuid >>= Action.answer) (fun _ _ => True) w := by
  have hfind : Tells env i (.disputePack operatorId transactionUuid)
      (Action.findFirstWith World.bets
        (fun b => b.operatorId = operatorId ∧ b.hasTransaction transactionUuid)
        fun w betId b => (w.rounds[b.roundId]?, w.pendingRoundBets.find? fun h => h.betId = betId))
      (fun found w' => ∀ betId bet r pendingState, found = some (betId, bet, some r, pendingState) →
        Tellable (.disputePack operatorId transactionUuid) r.revealed w') w := by
    intro w₁ _ hi c found w₂ hrun _
    dsimp only at hrun
    split at hrun
    · split at hrun
      · rename_i b hb
        split at hrun
        · rename_i hp
          obtain ⟨rfl, rfl⟩ := Prod.mk.inj (Option.some.inj hrun)
          refine ⟨Unanswered.seedGuar rfl, fun _ betId bet r pendingState hfound => ?_⟩
          obtain ⟨-, rfl, hrow, -⟩ := by
            simpa only [Option.some.injEq, Prod.mk.injEq] using hfound
          obtain ⟨hop, htx⟩ := of_decide_eq_true hp
          exact Tellable.revealed hi.1 hi.2 hrow trivial fun session hover =>
            ⟨b, List.mem_of_getElem? hb, hop, htx, hover⟩
        · cases hrun
      · cases hrun
    · split at hrun
      · cases hrun
      · obtain ⟨rfl, rfl⟩ := Prod.mk.inj (Option.some.inj hrun)
        exact ⟨Unanswered.seedGuar rfl, fun _ _ _ _ _ hfound => by cases hfound⟩
  have hread : Tells env i (.disputePack operatorId transactionUuid)
      (buildDisputePack env operatorId transactionUuid)
      (fun x => Tellable (.disputePack operatorId transactionUuid) x.reveals) w := by
    refine Go.bind_iff.mpr (hfind.mono fun found w hfound => ?_)
    split
    · rename_i betId bet r pendingState
      have hseed := hfound betId bet r pendingState rfl
      refine Go.bind_iff.mpr ((Tells.idle (Idle.findInOrder _ _) hseed).mono fun calls w hseed => ?_)
      refine Go.bind_iff.mpr ((Tells.idle (Idle.findGameConfig _ _ _) hseed).mono fun _ w hseed => ?_)
      exact Go.bind_iff.mpr ((Tells.idle Idle.now hseed).mono fun now w h => h)
    · exact fun _ hseed => by cases hseed
  exact Go.bind_iff.mpr (hread.mono fun x w h => Tells.answer h)

theorem rotateSeedRoute_tells {sessionId : Nat} {clientSeed : Option ClientSeed}
    {operatorId : Option OperatorId} :
    Tells env i (.rotateSeed sessionId clientSeed operatorId)
      (SessionService.rotateSeedRoute sessionId clientSeed operatorId >>= Action.answer)
      (fun _ _ => True) w := by
  have hnone : ∀ x : Answer, x.reveals = none → ∀ w,
      Tellable (.rotateSeed sessionId clientSeed operatorId) x.reveals w := fun x hx w seed hseed => by
    rw [hx] at hseed
    cases hseed
  -- the session is looked up, and its seed is read when it is looked up again
  have hrotate : ∀ w : World, w.Asks (.rotateSeed sessionId clientSeed operatorId) sessionId →
      Tells env i (.rotateSeed sessionId clientSeed operatorId)
        (SessionService.rotateSeed sessionId clientSeed)
        (fun x => Tellable (.rotateSeed sessionId clientSeed operatorId) x.reveals) w := by
    intro w hasks
    refine Go.bind_iff.mpr (Go.query (fun w => Unanswered.seedGuar rfl) fun w₁ hr hi => ?_)
    cases hs : w₁.sessions[sessionId]? with
    | none => exact hnone _ rfl _
    | some s =>
        have hseed : Tellable (.rotateSeed sessionId clientSeed operatorId) (some s.serverSeed) w₁ := by
          intro seed hseed
          obtain rfl := Option.some.inj hseed
          rw [hi.1.seedOwner hs]
          exact ⟨hi.1.seedBound hs, hasks.later hr.later hr.kept⟩
        refine Go.bind_iff.mpr (Go.request fun w₂ hr₂ _ _ => ⟨Unanswered.seedGuar rfl, fun hi₂ => ?_⟩)
        intro seed hmem
        obtain ⟨hlt, hask⟩ := (hseed.rely hr₂) seed hmem
        obtain ⟨hid, s', hs', hmatch⟩ := hask
        refine ⟨Nat.lt_of_lt_of_le hlt (Nat.le_add_right _ _), hid, SessionService.reseed sessionId
          w₂.serial (clientSeed.getD s.clientSeed) s', ?_, hmatch⟩
        rw [← hid] at hs'
        simp [World.updateSession, ← hid, Option.mem_def.mp hs']
  have hread : Tells env i (.rotateSeed sessionId clientSeed operatorId)
      (SessionService.rotateSeedRoute sessionId clientSeed operatorId)
      (fun x => Tellable (.rotateSeed sessionId clientSeed operatorId) x.reveals) w := by
    refine Go.bind_iff.mpr (Go.query (fun w => Unanswered.seedGuar rfl) fun w₁ _ _ => ?_)
    split
    · exact hnone _ rfl _
    split
    · exact hnone _ rfl _
    · rename_i s hs _
      obtain ⟨hrow, hop⟩ := Option.filter_eq_some_iff.mp hs
      exact hrotate w₁ ⟨rfl, s, hrow, fun op ho =>
        of_decide_eq_true ((Option.all_eq_true ..).mp hop op ho)⟩
  exact Go.bind_iff.mpr (hread.mono fun x w h => Tells.answer h)

theorem terminate_tells {sessionId : Nat} {reason : String} {operatorId : Option OperatorId} :
    Tells env i k (SessionService.terminate sessionId reason operatorId >>= Action.answer)
      (fun _ _ => True) w := by
  refine Tells.then_answer ?_ ?_
  · refine Prog.Keeps.bind (Idle.findUnique _ _).discreet fun session => ?_
    split
    · trivial
    split
    · trivial
    · exact Prog.Keeps.bind (Discreet.modify fun _ => ⟨rfl, rfl⟩) fun _ => trivial
  · refine Prog.Returns.then fun session => ?_
    split
    · rfl
    split
    · rfl
    · exact Prog.Returns.then fun _ => rfl

/-- **Every call tells only seeds that it asks for.** -/
theorem code_tells : Tells env i k (k.code env) (fun _ _ => True) w := by
  cases k with
  | start e => exact Tells.of_unanswered (Discreet.start.mono Discreet.unanswered)
  | iteration e polls =>
      exact Discreet.iteration_go (fun h => h.unanswered.seedGuar) fun plugin =>
        Tells.of_unanswered (createRound_unanswered plugin)
  | placeBet e params => exact Tells.then_answer (Discreet.placeBet _) (placeBet_reveals _)
  | cashOut e params => exact Tells.then_answer (Discreet.cashOut _) (cashOut_reveals _)
  | tick => exact Tells.of_unanswered (Discreet.tick.mono Discreet.unanswered)
  | createSession input =>
      exact Go.bind_iff.mpr (Go.request fun w₁ _ _ _ =>
        ⟨Unanswered.seedGuar rfl, fun _ => Tells.answer fun _ hseed => by cases hseed⟩)
  | terminateSession sessionId reason operatorId => exact terminate_tells
  | rotateSeed sessionId clientSeed operatorId => exact rotateSeedRoute_tells
  | roundProof roundId operatorId => exact forRound_tells
  | roundReplay roundId operatorId => exact roundReplay_tells
  | disputePack operatorId transactionUuid => exact buildDisputePack_tells

end Asks

/-! ## Making a round under a seed -/

section Turns

variable {env : Env} {i polls : Nat} {key : EngineKey} {e : EngineRef} {w w' w'' : World} {α : Type}

/-- **What a turn of the loop may rely on** until its round is made: a session gets no other seed than a
new one, and no seed of an engine's session is told. -/
structure TurnRely (key : EngineKey) (w w' : World) : Prop where
  later : Later w w'
  now : w.now ≤ w'.now
  sessions : ∀ {id : Nat} {s' : GameSession}, w'.sessions[id]? = some s' →
    (∃ s, w.sessions[id]? = some s ∧ s'.serverSeed = s.serverSeed ∧ s'.expiresAt = s.expiresAt ∧
      (s'.terminatedAt = none → s.terminatedAt = none)) ∨ w.serial ≤ s'.serverSeed.serial
  disclosed : ∀ seed, w'.Disclosed seed → w.Disclosed seed ∨ w'.ForeignSession key seed.session

/-- **What a turn does**: the seed of a round that it makes was not told. -/
def TurnGuar (w w' : World) : Prop :=
  ∀ (n : Nat) (r' : Round), w'.rounds[n]? = some r' → w.rounds.length ≤ n →
    ¬ w.Disclosed r'.serverSeed

/-- The rules for turns of the loop. -/
def turnRules (env : Env) (_ : Nat) (k : Call) : Rules World where
  inv w := Sound (.free env) w ∧ w.DisclosedBound
  permit _ _ := True
  rely w w' := ∀ e, k.drives = some e → TurnRely e.key w w'
  guar := TurnGuar

/-- A turn of the loop goes on by the rules for turns. -/
abbrev Turns (env : Env) (i : Nat) (e : EngineRef) (polls : Nat) (p : Action α)
    (Q : α → World → Prop) (w : World) : Prop :=
  Go (turnRules env i (.iteration e polls)) i p Q w

theorem World.ForeignSession.later {id : Nat} (h : w.ForeignSession key id) (hl : Later w w') :
    w'.ForeignSession key id := by
  obtain ⟨s, hs, hne⟩ := h
  obtain ⟨s', hs', hid⟩ := hl.session hs
  exact ⟨s', hs', hid.trans_ne hne⟩

theorem World.EngineSession.later {id : Nat} (h : w.EngineSession key id) (hl : Later w w') :
    w'.EngineSession key id := by
  obtain ⟨s, hs, heq⟩ := h
  obtain ⟨s', hs', hid⟩ := hl.session hs
  exact ⟨s', hs', hid.trans heq⟩

/-- A session is of an engine or it is not. -/
theorem World.EngineSession.not_foreign {id : Nat} (h : w.EngineSession key id) :
    ¬ w.ForeignSession key id := by
  rintro ⟨s', hs', hne⟩
  obtain ⟨s, hs, heq⟩ := h
  obtain rfl := Option.some.inj (hs.symm.trans hs')
  exact hne heq

theorem TurnRely.refl (key : EngineKey) (w : World) : TurnRely key w w where
  later := .refl w
  now := Nat.le_refl _
  sessions hs := .inl ⟨_, hs, rfl, rfl, id⟩
  disclosed _ h := .inl h

theorem TurnRely.trans (h : TurnRely key w w') (h' : TurnRely key w' w'') : TurnRely key w w'' where
  later := h.later.trans h'.later
  now := Nat.le_trans h.now h'.now
  sessions {id s''} hs := by
    rcases h'.sessions hs with ⟨s', hs', hseed', hexpires', hopen'⟩ | hnew
    · rcases h.sessions hs' with ⟨s, hs, hseed, hexpires, hopen⟩ | hnew
      · exact .inl ⟨s, hs, hseed'.trans hseed, hexpires'.trans hexpires, fun ho => hopen (hopen' ho)⟩
      · exact .inr (hseed' ▸ hnew)
    · exact .inr (Nat.le_trans h.later.serial hnew)
  disclosed seed hd := by
    rcases h'.disclosed seed hd with hd | hforeign
    · rcases h.disclosed seed hd with hd | hforeign
      · exact .inl hd
      · exact .inr (hforeign.later h'.later)
    · exact .inr hforeign

/-- A seed of an engine's session that was not told still was not. -/
theorem TurnRely.untold (h : TurnRely key w w') {seed : Seed} (hs : w.EngineSession key seed.session)
    (hnot : ¬ w.Disclosed seed) : ¬ w'.Disclosed seed := by
  intro hd
  rcases h.disclosed seed hd with hd | hforeign
  · exact hnot hd
  · exact (hs.later h.later).not_foreign hforeign

/-- **The next turn of an engine still finds seeds that were not told.** -/
theorem World.Unspent.rely (h : w.Unspent key) (hbound : w.DisclosedBound) (hr : TurnRely key w w')
    (hs' : Sound (.free env) w') : w'.Unspent key := by
  intro id s' hrow' hid hopen hexpires hd
  have howner := hs'.seedOwner hrow'
  have hforeign : ¬ w'.ForeignSession key s'.serverSeed.session :=
    World.EngineSession.not_foreign ⟨s', by rw [howner]; exact hrow', hid⟩
  have hdisclosed : w.Disclosed s'.serverSeed := (hr.disclosed _ hd).resolve_right hforeign
  rcases hr.sessions hrow' with ⟨s, hrow, hseed, hexpiresAt, hopened⟩ | hnew
  · obtain ⟨s'', hrow'', hidentity⟩ := hr.later.session hrow
    obtain rfl := Option.some.inj (hrow'.symm.trans hrow'')
    refine h id s hrow (hidentity.symm.trans hid) (hopened hopen) ?_ (hseed ▸ hdisclosed)
    exact Nat.lt_of_le_of_lt hr.now (hexpiresAt ▸ hexpires)
  · exact absurd (hbound _ hdisclosed) (Nat.not_lt.mpr hnew)

/-- A session that a turn has read: as long as it has not expired, its seed was not told. -/
structure Chosen (key : EngineKey) (session : Nat × GameSession) (w : World) : Prop where
  owner : session.2.serverSeed.session = session.1
  engine : w.EngineSession key session.1
  untold : w.now < session.2.expiresAt → ¬ w.Disclosed session.2.serverSeed

theorem Chosen.rely {session : Nat × GameSession} (h : Chosen key session w) (hr : TurnRely key w w') :
    Chosen key session w' where
  owner := h.owner
  engine := h.engine.later hr.later
  untold hexpires := hr.untold (h.owner.symm ▸ h.engine) (h.untold (Nat.lt_of_le_of_lt hr.now hexpires))

/-- **The session of a turn**: its seed was not told. -/
theorem getOrCreateEngineSession_turns (h : w.Unspent e.key) (hbound : w.DisclosedBound) :
    Turns env i e polls (GameEngine.getOrCreateEngineSession e) (fun session w' =>
      session.2.serverSeed.session = session.1 ∧ w'.EngineSession e.key session.1 ∧
        ¬ w'.Disclosed session.2.serverSeed) w := by
  have hidle : ∀ w : World, TurnGuar w w := fun w n r' hr hn =>
    absurd (List.getElem?_eq_some_iff.mp hr).1 (Nat.not_lt.mpr hn)
  have hfind : Turns env i e polls (Action.findFirst World.sessions fun s =>
      s.operatorId = e.key.operatorId ∧ s.playerRef = GameEngine.playerRef e ∧ s.terminatedAt = none)
      (fun existing w' => ∀ session ∈ existing, Chosen e.key session w') w := by
    refine findFirst_reads hidle fun w₁ hr hi => ⟨?_, fun id s hrow hp => ?_⟩
    · rintro session ⟨⟩
    rintro session hsession
    obtain rfl := Option.some.inj hsession
    obtain ⟨hop, hplayer, hopen⟩ := of_decide_eq_true hp
    have hid : s.identity = e.key.session := by
      rw [GameSession.identity, hop, hplayer]
      rfl
    exact ⟨hi.1.seedOwner hrow, ⟨s, hrow, hid⟩, fun hexpires =>
      (h.rely hbound (hr e rfl) hi.1) id s hrow hid hopen hexpires⟩
  refine Go.bind_iff.mpr (hfind.mono fun existing w hexisting => ?_)
  refine Go.bind_iff.mpr (Go.query hidle fun w₁ hr hi => ?_)
  split
  · rename_i session hsession
    obtain ⟨hmem, hexpires⟩ := Option.filter_eq_some_iff.mp hsession
    have hchosen := (hexisting session hmem).rely (hr e rfl)
    exact ⟨hchosen.owner, hchosen.engine, hchosen.untold (of_decide_eq_true hexpires)⟩
  · refine Go.request fun w₂ _ hi₂ _ => ⟨hidle w₂, fun _ => ⟨rfl, ?_, fun hd => ?_⟩⟩
    · exact ⟨_, Table.getElem?_concat_length _ _, rfl⟩
    · exact absurd (hi₂.2 _ hd) (Nat.lt_irrefl _)

/-- **A turn of the loop makes its round under a seed that was not told.** -/
theorem turn_go (h : w.Unspent e.key) (hbound : w.DisclosedBound) :
    Turns env i e polls (GameEngine.iteration env e polls) (fun _ _ => True) w := by
  have hdiscreet : ∀ {w w'}, Discreet w w' → TurnGuar w w' := fun h n r' hr hn => by
    have hlt := (List.getElem?_eq_some_iff.mp hr).1
    rw [h.rounds] at hlt
    exact absurd hlt (Nat.not_lt.mpr hn)
  refine Discreet.iteration_go hdiscreet fun plugin => ?_
  refine Go.bind_iff.mpr ((getOrCreateEngineSession_turns h hbound).mono fun session w hsession => ?_)
  obtain ⟨howner, hengine, huntold⟩ := hsession
  refine Go.bind_iff.mpr (Go.request fun w₁ hr _ _ => ⟨fun n r' hr' hn => ?_, fun _ => ?_⟩)
  · rcases Table.getElem?_concat_cases hr' with hr' | ⟨-, rfl⟩
    · exact absurd (List.getElem?_eq_some_iff.mp hr').1 (Nat.not_lt.mpr hn)
    · exact (hr e rfl).untold (howner.symm ▸ hengine) huntold
  · exact Discreet.go hdiscreet (Discreet.afterCreate _ _ _)

end Turns

end YantraRgs
