import YantraRgs.Conduct.PlaceBet
import YantraRgs.Conduct.Prices

/-! # Cashing out keeps to the rules

A cash-out hands over one win for a bet that was read as accepted, writes the bet, and queues the
win when the operator did not credit it.

* **`Owes`** — what stays true of a bet whose win is being paid.
* **`invokeWin_go`** — the win of such a bet is handed over.
* **`Faces`** — how a call knows the configuration that a cash-out is paid under.
* **`cashOutBet_go`**, **`processAutoCashouts_go`** — a cash-out, and the poll of a flight. -/

namespace YantraRgs

open Await

variable {P : Policy} {i : Nat} {k : Call} {w w' : World} {e : EngineRef}

/-! ## Paying the win of a bet -/

/-- The row `betId` is of the given bet, its stake was taken, and the call reaches its round. -/
def Owes (k : Call) (betId : Nat) (bet : Bet) (w : World) : Prop :=
  (∃ b, w.bets[betId]? = some b ∧ b.status.taken = true ∧
    b.betTransactionUuid = bet.betTransactionUuid ∧ b.roundId = bet.roundId ∧
    b.terms = bet.terms) ∧ w.Reaches k bet.roundId

/-- What a bet is owed stays true. -/
theorem Owes.later {betId : Nat} {bet : Bet} (hl : Later w w') (h : Owes k betId bet w) :
    Owes k betId bet w' := by
  obtain ⟨⟨b, hb, ht, hu, hr, hterms⟩, hreach⟩ := h
  obtain ⟨b', hb', hbl⟩ := hl.bet hb
  exact ⟨⟨b', hb', hbl.taken ht, hbl.betTransactionUuid.trans hu, hbl.roundId.trans hr,
    hbl.terms.trans hterms⟩, hl.reaches hreach⟩

theorem owes_stable {betId : Nat} {bet : Bet} : Stable P i k (Owes k betId bet) :=
  .of_later fun hl h => h.later hl

/-- A bet that was read with its stake taken. -/
theorem Owes.of_read {betId : Nat} {bet : Bet} (hb : w.bets[betId]? = some bet)
    (ht : bet.status.taken = true) (hr : w.Reaches k bet.roundId) : Owes k betId bet w :=
  ⟨⟨bet, hb, ht, rfl, rfl, rfl⟩, hr⟩

/-- **A bet that the call holds is not voided**, as far as the policy knows. -/
def Safe (P : Policy) (k : Call) (betId : Nat) (w : World) : Prop :=
  P.oneEngine → ∃ b, w.bets[betId]? = some b ∧ w.Holds k b.roundId ∧ b.status ≠ .voided

theorem safe_stable {betId : Nat} : Stable P i k (Safe P k betId) := by
  intro w w' hr h hP
  obtain ⟨b, hb, hh, hv⟩ := h hP
  obtain ⟨b', hb', hl⟩ := hr.later.bet hb
  exact ⟨b', hb', by rw [hl.roundId]; exact hh.later hr.later, hr.held hP betId b b' hb hh hv hb'⟩

/-- Nor does the call void it itself, unless it starts an engine. -/
theorem Safe.move {betId : Nat} (h : Safe P k betId w) (hm : Move P i k w w')
    (hk : ∀ e, k ≠ .start e) : Safe P k betId w' := by
  intro hP
  obtain ⟨b, hb, hh, hv⟩ := h hP
  obtain ⟨b', hb', hl⟩ := hm.later.bet hb
  refine ⟨b', hb', by rw [hl.roundId]; exact hh.later hm.later, fun hvoided => ?_⟩
  rcases hm.bet_origin hb' with ⟨b₀, hb₀, rfl | ⟨hs, -⟩⟩ | ⟨rfl, -⟩
  · exact hv (Option.some.inj (hb.symm.trans hb₀) ▸ hvoided)
  · obtain ⟨e, hke, -⟩ := hs.voided hvoided
    exact hk e hke
  · simp at hb

/-- The row of a bet that is safe. -/
theorem Safe.not_voided {betId : Nat} {b : Bet} (h : Safe P k betId w)
    (hb : w.bets[betId]? = some b) (hP : P.oneEngine) : b.status ≠ .voided := by
  obtain ⟨b', hb', -, hv⟩ := h hP
  exact Option.some.inj (hb'.symm.trans hb) ▸ hv

section Win

variable {betId : Nat} {bet : Bet} {payoutMicro : Int} {requestUuid winTxUuid : Uuid}

/-- **Handing over the win of a bet.** -/
theorem invokeWin_go {env : Env} {gameCode : GameCode} {client : WalletClient}
    {sessionId roundId : Option Nat}
    (huse : winTxUuid.use = .credit) (ho : requestUuid.owner = i)
    (hn : requestUuid.serial < w.serial) (hq : ¬ w.RequestKnown requestUuid)
    {B : World → Prop} (hB : B w) (howes : ∀ {w}, B w → Owes k betId bet w)
    (hsafe : ∀ {w}, B w → Safe P k betId w)
    (hdue : ∀ {w}, B w → P.oneEngine → P.priced → w.Due P.env bet payoutMicro)
    (hstable : Stable P i k B) (hcall : ∀ {w c}, B w → B (w.addWalletCall c))
    (hhand : ∀ {w s}, B w → B (w.hand s)) :
    Walk P i k (client.invoke env
        (GameEngine.winRequest gameCode bet payoutMicro requestUuid winTxUuid)
        ⟨sessionId, roundId, none⟩)
      (fun _ w' => B w' ∧ w'.Queueable requestUuid) w := by
  refine invoke_first_go client env rfl ho hn hq hB hstable hcall hhand
    fun hB hserial hwire hjobs => ?_
  obtain ⟨⟨b, hb, ht, hu, hr, hterms⟩, hreach⟩ := howes hB
  exact .credit b (List.mem_of_getElem? hb) ht ((hsafe hB).not_voided hb) (hr ▸ hreach) rfl
    (congrArg some hu.symm) winTxUuid rfl huse rfl ho hwire hjobs hserial fun hP hC =>
      ⟨payoutMicro, rfl, (hdue hB hP hC).congr hterms hr⟩

/-- Queueing the win of a bet. -/
theorem queueWin_go {operatorId : OperatorId} {gameCode : GameCode} {roundId : Nat}
    {lastError : Option String} {Q : Unit → World → Prop} (hk : ∀ e, k ≠ .start e)
    (huse : winTxUuid.use = .credit) (ho : requestUuid.owner = i) {B : World → Prop}
    (hB : B w ∧ w.Queueable requestUuid) (howes : ∀ {w}, B w → Owes k betId bet w)
    (hsafe : ∀ {w}, B w → Safe P k betId w)
    (hdue : ∀ {w}, B w → P.oneEngine → P.priced → w.Due P.env bet payoutMicro)
    (hstable : Stable P i k B)
    (hQ : ∀ {w j}, B w → j.endpoint = .win → j.betId = some betId → Q () (w.addJob j)) :
    Walk P i k (GameEngine.queueJob operatorId .win betId roundId
      (GameEngine.winPayload gameCode bet payoutMicro requestUuid winTxUuid) lastError) Q w := by
  refine queueJob_go hB (hstable.and (queueable_stable ho)) ho (fun _ hR => ?_)
    fun _ hR he _ hb => hQ hR.1 he hb
  obtain ⟨⟨b, hb, ht, hu, hr, hterms⟩, hreach⟩ := howes hR.1
  refine ⟨hR.2, b, hb, congrArg some hu.symm, hr ▸ hreach, fun j he hp => ?_⟩
  exact .credit he ht ((hsafe hR.1).not_voided hb) (by rw [hp]; exact huse)
    (fun _ _ ⟨e, hke⟩ => absurd hke (hk e))
    fun hP hC => ⟨payoutMicro, by rw [hp]; rfl, (hdue hR.1 hP hC).congr hterms hr⟩

end Win

/-! ## Cashing out -/

section CashOut

variable {p : CashOutParams} {bet : Bet} {slotId : Option Nat} {multiplier : Rat}
variable {elapsedMs : Millis} {payoutMicro : Int}

theorem Idle.resolveHeld (betId : Nat) (reason : String) :
    Idle (GameEngine.resolveHeld betId reason) :=
  Prog.Keeps.modify fun w => { Same.refl w with }

/-- What stays true of a bet that is being cashed out. -/
structure Cashing (P : Policy) (k : Call) (betId : Nat) (bet : Bet) (elapsedMs : Millis)
    (multiplier : Rat) (payoutMicro : Int) (w : World) : Prop where
  owes : Owes k betId bet w
  safe : Safe P k betId w
  pays : P.oneEngine → P.priced → w.CashesOut P.env bet elapsedMs multiplier payoutMicro

theorem cashing_stable {betId : Nat} :
    Stable P i k (Cashing P k betId bet elapsedMs multiplier payoutMicro) := fun _ _ hr h =>
  ⟨h.owes.later hr.later, safe_stable hr h.safe, fun hP hC =>
    (h.pays hP hC).later hr.later (hr.outcomes hP) rfl rfl⟩

/-- A bet that is cashed out is due what the cash-out pays. -/
theorem Cashing.due {betId : Nat} (h : Cashing P k betId bet elapsedMs multiplier payoutMicro w)
    (hP : P.oneEngine) (hC : P.priced) : w.Due P.env bet payoutMicro :=
  .inr ⟨elapsedMs, multiplier, h.pays hP hC⟩

/-- Writing the result of a cash-out. -/
theorem updateCashOut_go {betId : Nat} {mode : CashoutMode} {winTxUuid : Uuid} {status : BetStatus}
    {R : World → Prop} (hk : ∀ e, k ≠ .start e) (hs : status = .settled ∨ status = .failed)
    (huse : winTxUuid.use = .credit)
    (h : Cashing P k betId bet elapsedMs multiplier payoutMicro w) (hR : R w)
    (hstable : Stable P i k R) (hupdate : ∀ {w id f}, R w → R (w.updateBet id f)) :
    Walk P i k (Prog.modify fun w => w.updateBet betId
        (Bet.cashOut mode multiplier elapsedMs payoutMicro winTxUuid status w.now))
      (fun _ w' => Cashing P k betId bet elapsedMs multiplier payoutMicro w' ∧ R w') w := by
  refine Go.modify fun w₁ hr _ _ => ?_
  have h₁ := cashing_stable hr h
  obtain ⟨⟨b, hb, ht, -, hround, hterms⟩, hreach⟩ := h₁.owes
  have hmove := updateBet_move (P := P) (i := i) (k := k) (w := w₁) betId
    (f := Bet.cashOut mode multiplier elapsedMs payoutMicro winTxUuid status w₁.now)
    fun b₁ hb₁ => by
      rw [hb] at hb₁
      obtain rfl := Option.some.inj hb₁
      exact ⟨hround ▸ hreach,
        .cashOut b mode multiplier elapsedMs payoutMicro winTxUuid status _ ht
          (h₁.safe.not_voided hb) hs huse fun hP hC =>
            (h₁.pays hP hC).later (.refl _) (.of_eq rfl) hterms hround⟩
  exact ⟨hmove, fun _ =>
    ⟨⟨h₁.owes.later hmove.later, h₁.safe.move hmove hk, h₁.pays⟩, hupdate (hstable hr hR)⟩⟩

/-- Recording a cash-out. -/
theorem recordCashOut_go {betId : Nat} {mode : CashoutMode} {winTxUuid requestUuid : Uuid}
    {res : WalletResponse} (hk : ∀ e, k ≠ .start e) (huse : winTxUuid.use = .credit)
    (ho : requestUuid.owner = i) (h : Cashing P k betId bet elapsedMs multiplier payoutMicro w)
    (hq : w.Queueable requestUuid) :
    Walk P i k (GameEngine.recordCashOut e mode betId bet multiplier elapsedMs payoutMicro winTxUuid
      requestUuid res) (fun _ _ => True) w := by
  unfold GameEngine.recordCashOut
  split
  · refine Go.bind_iff.mpr ((updateCashOut_go (R := fun _ => True) hk (.inl rfl) huse h trivial
      (fun _ _ _ h => h) fun h => h).mono fun _ w _ => ?_)
    exact Walk.of_idle (Prog.Keeps.bind (Idle.resolveHeld _ _) fun _ => Idle.emit _ _)
  · refine Go.bind_iff.mpr ((updateCashOut_go (R := fun w => w.Queueable requestUuid) hk (.inr rfl)
      huse h hq (queueable_stable ho) fun h => ⟨h.1, h.2, h.3, h.4⟩).mono fun _ w hR => ?_)
    exact queueWin_go hk huse ho hR Cashing.owes Cashing.safe Cashing.due cashing_stable
      fun _ _ _ => trivial

/-- Paying a cash-out. -/
theorem payCashOut_go {env : Env} (hk : ∀ e, k ≠ .start e)
    (h : Cashing P k p.betId bet elapsedMs multiplier payoutMicro w) :
    Walk P i k (GameEngine.payCashOut env e p bet slotId multiplier elapsedMs payoutMicro)
      (fun _ _ => True) w := by
  refine Go.bind_iff.mpr ((newUuid_go h cashing_stable).mono
    fun winTxUuid w ⟨h, huse, _, _, _⟩ => ?_)
  refine Go.bind_iff.mpr ((newUuid_go h cashing_stable).mono
    fun requestUuid w ⟨h, _, ho, hn, hq⟩ => ?_)
  refine Go.bind_iff.mpr ((invokeWin_go huse ho hn hq h Cashing.owes Cashing.safe Cashing.due
    cashing_stable (fun h => ⟨h.owes, h.safe, h.pays⟩) fun h => ⟨h.owes, h.safe, h.pays⟩).mono
      fun res w ⟨h, hq⟩ => ?_)
  refine (recordCashOut_go hk huse ho h hq).then_idle fun _ => ?_
  exact Prog.Keeps.bind (Idle.emit _ _) fun _ => Prog.Keeps.bind (Idle.engineEmit _ _) fun _ =>
    Prog.Keeps.bind (Idle.emitPoolUpdate _ _) fun _ => trivial

/-- What a call that cashes a bet out of round `id` knows for sure: a turn of the loop, that the
round is the active one; the call of a player, that it was asked to. -/
def Faces (k : Call) (e : EngineRef) (betId id : Nat) (w : World) : Prop :=
  match k with
  | .iteration e' _ => e' = e ∧ (w.activeIds e).getLast? = some id
  | .cashOut e' p => e' = e ∧ p.betId = betId
  | _ => False

theorem faces_stable {betId id : Nat} :
    Stable P i k fun w => w.Keyed e ∧ (P.oneEngine → Faces k e betId id w) := by
  intro w w' hr ⟨hkeyed, h⟩
  refine ⟨hr.later.keyed hkeyed, fun hP => ?_⟩
  have hf := h hP
  cases k with
  | iteration e' polls =>
      obtain ⟨rfl, hlast⟩ := hf
      exact ⟨rfl, by rw [(hr.loop hP e' polls rfl).active hkeyed, hlast]⟩
  | cashOut e' q => exact hf
  | _ => exact hf.elim

/-- The engine holds the configuration that the round of the bet was created under. -/
theorem World.Priced.createdUnder {betId id : Nat} {b : Bet} {r : Round} {engine : Engine}
    (h : w.Priced k) (hf : Faces k e betId id w) (he : w.engine? e = some engine)
    (hb : w.bets[betId]? = some b) (ht : b.status.taken = true) (hround : b.roundId = id)
    (hr : w.rounds[id]? = some r) : r.createdUnder = some engine.gameConfig := by
  subst hround
  cases k with
  | iteration e' polls =>
      obtain ⟨rfl, hlast⟩ := hf
      exact (h engine he b (List.mem_of_getElem? hb) ht hlast r hr).1
  | cashOut e' q =>
      obtain ⟨rfl, rfl⟩ := hf
      exact h engine he b hb ht r hr
  | _ => exact hf.elim

/-- What a cash-out knows about the bet that it read as accepted. -/
structure Facing (P : Policy) (k : Call) (e : EngineRef) (betId : Nat) (bet : Bet) (w : World) :
    Prop where
  owes : Owes k betId bet w
  safe : Safe P k betId w
  round : w.RoundOf bet.roundId e.key
  faces : w.Keyed e ∧ (P.oneEngine → Faces k e betId bet.roundId w)

theorem facing_stable {betId : Nat} : Stable P i k (Facing P k e betId bet) := fun _ _ hr h =>
  ⟨h.owes.later hr.later, safe_stable hr h.safe, hr.later.roundOf h.round,
    faces_stable hr h.faces⟩

/-- What the engine would pay is what the bet is due. -/
theorem Facing.cashesOut {betId : Nat} {plugin : GamePlugin} {live : LiveCrashSupport}
    {engine : Engine} {forced : Option Rat} {crashMultiplier : Rat} {settled : SettlementResult}
    (h : Facing P k e betId bet w) (hplugin : P.env.getPlugin e.key.gameCode = some plugin)
    (hlive : plugin.liveCrash = some live) (he : w.engine? e = some engine)
    (hmultiplier : multiplier = min (min
      (forced.getD (live.multiplierAtElapsedMs elapsedMs engine.gameConfig))
      (live.multiplierAtElapsedMs elapsedMs engine.gameConfig)) crashMultiplier)
    (hsettle : live.settleCashout ⟨bet.selection, bet.amountMicro, multiplier, engine.gameConfig,
      bet.commissionMicro⟩ = settled) (hwon : settled.won = true)
    (hpriced : P.priced → w.Priced k) (hP : P.oneEngine) (hC : P.priced) :
    w.CashesOut P.env bet elapsedMs multiplier settled.payoutMicro := by
  obtain ⟨r, hr, hkey⟩ := h.round
  obtain ⟨⟨b, hb, ht, -, hround, -⟩, -⟩ := h.owes
  have hcreated := (hpriced hC).createdUnder (h.faces.2 hP) he hb ht hround hr
  have hgame : r.gameCode = e.key.gameCode := congrArg EngineKey.gameCode hkey
  refine ⟨r, engine.gameConfig, plugin, live, hr, hcreated, hgame ▸ hplugin, hlive,
    ⟨forced, crashMultiplier, hmultiplier⟩, ?_⟩
  cases settled with
  | mk won payoutMicro =>
      obtain rfl : won = true := hwon
      exact hsettle

/-- The cash-out of a bet that was read as accepted. -/
theorem cashOutAccepted_go {live : LiveCrashSupport} {n : Nat} {crashMultiplier : Rat}
    (hk : ∀ e, k ≠ .start e) (hlive : GameEngine.live? P.env e = some live)
    (h : Facing P k e p.betId bet w) :
    Walk P i k (GameEngine.cashOutAccepted P.env e live p n crashMultiplier bet)
      (fun _ _ => True) w := by
  obtain ⟨plugin, hplugin, hlive⟩ := Option.bind_eq_some_iff.mp hlive
  unfold GameEngine.cashOutAccepted
  dsimp only
  split
  · trivial
  refine Walk.idle_bind Idle.now h facing_stable fun now w h => ?_
  refine Go.bind_iff.mpr ((engine_go h facing_stable).mono fun engine w ⟨h, he, _, hpriced⟩ => ?_)
  split
  · split
    · exact Walk.of_idle (Prog.Keeps.bind (Idle.emit _ _) fun _ => trivial)
    · split
      · rename_i hwon
        exact payCashOut_go hk ⟨h.owes, h.safe, h.cashesOut hplugin hlive he rfl rfl hwon hpriced⟩
      · trivial
  · trivial

/-- What a cash-out knows about the active round of the engine. -/
structure Flying (P : Policy) (k : Call) (e : EngineRef) (betId id : Nat) (w : World) : Prop where
  reach : w.Reaches k id
  holds : w.Holds k id
  round : w.RoundOf id e.key
  faces : w.Keyed e ∧ (P.oneEngine → Faces k e betId id w)

theorem flying_stable {betId id : Nat} : Stable P i k (Flying P k e betId id) := fun _ _ hr h =>
  ⟨hr.later.reaches h.reach, h.holds.later hr.later, hr.later.roundOf h.round,
    faces_stable hr h.faces⟩

/-- **Cashing a bet out**, by a call that reaches the active rounds of its engine. -/
theorem cashOutBet_go (hk : ∀ e, k ≠ .start e) (hkeyed : w.Keyed e)
    (hreach : ∀ {w id}, Sound P w → w.Keyed e → id ∈ w.activeIds e → w.Reaches k id)
    (hholds : ∀ {w : World} {id : Nat}, w.Keyed e → id ∈ w.activeIds e → w.Holds k id)
    (hfaces : ∀ {w id}, (w.activeIds e).getLast? = some id → Faces k e p.betId id w) :
    Walk P i k (GameEngine.cashOutBet P.env e p) (fun _ _ => True) w := by
  have hengine : Walk P i k (Action.engine e) (fun engine w' =>
      ∀ x, engine.bind GameEngine.flight = some x → Flying P k e p.betId x.1.id w') w := by
    refine Go.query (fun w => .idle (.refl w)) fun w₁ hr hs x hx => ?_
    obtain ⟨engine, hengine, hflight⟩ := Option.bind_eq_some_iff.mp hx
    obtain ⟨active, hactive, hflight⟩ := Option.bind_eq_some_iff.mp hflight
    have hkeyed₁ := hr.later.keyed hkeyed
    have hlast := getLast?_activeIds hengine hactive
    have hid := List.mem_of_getLast? hlast
    split at hflight
    · obtain ⟨m, -, rfl⟩ := Option.map_eq_some_iff.mp hflight
      exact ⟨hreach hs hkeyed₁ hid, hholds hkeyed₁ hid, hs.activeKey hkeyed₁ hid, hkeyed₁,
        fun _ => hfaces hlast⟩
    · cases hflight
  refine Go.bind_iff.mpr (hengine.mono fun engine w hflight => ?_)
  split
  · rename_i live engine active crashMultiplier hlive hx
    have hactive := hflight _ hx
    split
    · trivial
    have hbet : Walk P i k (Action.findUnique World.bets p.betId) (fun bet w' =>
        Flying P k e p.betId active.id w' ∧ w'.bets[p.betId]? = bet) w :=
      Go.query (fun w => .idle (.refl w)) fun w₁ hr _ => ⟨flying_stable hr hactive, rfl⟩
    refine Go.bind_iff.mpr (hbet.mono fun bet w ⟨h, hbet⟩ => ?_)
    split
    · trivial
    · rename_i b hb
      obtain ⟨rfl, hfilter⟩ := Option.filter_eq_some_iff.mp hb
      have hid : b.roundId = active.id := (of_decide_eq_true hfilter).2
      split
      · trivial
      · split
        · trivial
        · rename_i hstatus
          have hacc : b.status = .accepted := by simpa using hstatus
          refine cashOutAccepted_go hk hlive ⟨.of_read hbet (by rw [hacc]; rfl) (hid ▸ h.reach),
            fun _ => ⟨b, hbet, hid ▸ h.holds, ?_⟩, hid ▸ h.round, hid ▸ h.faces⟩
          rw [hacc]
          simp
  · trivial

/-- **A player cashes out.** -/
theorem cashOut_go (hkeyed : w.Keyed e) :
    Walk P i (.cashOut e p) (GameEngine.cashOut P.env e p) (fun _ _ => True) w := by
  refine Walk.idle_bind (Idle.engine e) hkeyed (.of_later fun hl => hl.keyed)
    fun engine w hkeyed => ?_
  split
  · exact cashOutBet_go (fun _ => by simp) hkeyed (fun _ hk hid => ⟨hk, hid⟩)
      (fun hk hid => ⟨hk, hid⟩) fun _ => ⟨rfl, rfl⟩
  · trivial

/-- **The poll of a flight.** -/
theorem processAutoCashouts_go {live : LiveCrashSupport} {polls : Nat} (hkeyed : w.Keyed e) :
    Walk P i (.iteration e polls) (GameEngine.processAutoCashouts P.env e live multiplier)
      (fun _ _ => True) w := by
  have hstable : Stable P i (.iteration e polls) fun w => w.Keyed e := .of_later fun hl => hl.keyed
  refine Walk.idle_bind (Idle.engine e) hkeyed hstable fun engine w hkeyed => ?_
  split
  · trivial
  split
  · trivial
  refine Walk.idle_bind (Idle.findInOrder _ _) hkeyed hstable fun bets w hkeyed => ?_
  refine Go.each (fun _ w => w.Keyed e) hkeyed (fun b bs w hkeyed => ?_) fun _ _ => trivial
  split
  · exact hkeyed
  split
  · exact hkeyed
  · refine Go.bind_iff.mpr ((cashOutBet_go (k := .iteration e polls) (fun _ => by simp) hkeyed
      (fun hs hk hid => hs.activeKey hk hid) (fun hk hid => ⟨hk, hid⟩)
      fun hlast => ⟨rfl, hlast⟩).later.mono
        fun _ _ h => ?_)
    exact h.2.keyed hkeyed

end CashOut

end YantraRgs
