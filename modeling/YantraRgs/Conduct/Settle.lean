import YantraRgs.Conduct.Still

/-! # Settling keeps to the rules

The loop of `settle` takes the accepted bets of a round one after the other. No bet becomes accepted
meanwhile, since the round does not take bets any more, so at the end no bet of the round is
accepted.

* **`Closed`** — a round of the engine that takes no bets.
* **`Settling`** — the invariant of the loop.
* **`settle_go`** — the settlement of the active round. -/

namespace YantraRgs

open Await

variable {P : Policy} {i : Nat} {w w' : World} {env : Env} {e : EngineRef} {polls : Nat}
variable {outcome : GameOutcome}

/-- A round of the engine that takes no bets any more. -/
def Closed (e : EngineRef) (id : Nat) (w : World) : Prop :=
  ∃ r, w.rounds[id]? = some r ∧ r.key = e.key ∧ r.state.takesBets = false

/-- A closed round stays closed: nobody else drives the rounds of the engine. -/
theorem LoopRely.closed (hl : Later w w') (h : LoopRely P e w w') {id : Nat}
    (hc : Closed e id w) : Closed e id w' := by
  obtain ⟨r, hr, hk, ht⟩ := hc
  obtain ⟨r', hr', hrl⟩ := hl.round hr
  have hk' : r'.key = e.key := hrl.key.trans hk
  obtain ⟨r₀, hr₀, hs, -⟩ := h.rounds hr' hk'
  rw [hr] at hr₀
  obtain rfl := Option.some.inj hr₀
  exact ⟨r', hr', hk', by rw [hs, ht]⟩

/-- Every round of a key but the given one is settled. -/
def World.OthersSettled (w : World) (key : EngineKey) (id : Nat) : Prop :=
  ∀ (n : Nat) (r : Round), w.rounds[n]? = some r → r.key = key → n ≠ id → r.settled = true

/-- The other rounds stay settled: nobody else drives the rounds of the engine. -/
theorem LoopRely.othersSettled (hl : Later w w') (h : LoopRely P e w w') {id : Nat}
    (ho : w.OthersSettled e.key id) : w'.OthersSettled e.key id := by
  intro n r' hr' hk hn
  obtain ⟨r, hr, -, -, hs⟩ := h.rounds hr' hk
  obtain ⟨r₀, hr₀, hrl⟩ := hl.round hr
  obtain rfl := Option.some.inj (hr'.symm.trans hr₀)
  rw [hs]
  exact ho n r hr (hrl.key.symm.trans hk) hn

/-- Settling the given round settles all. -/
theorem World.OthersSettled.settle {key : EngineKey} {id : Nat} {f : Round → Round}
    (h : w.OthersSettled key id) (hround : w.RoundOf id key) (hf : ∀ r, (f r).settled = true) :
    (w.updateRound id f).AllSettled key := by
  intro r' hr' hk
  obtain ⟨n, hn⟩ := List.mem_iff_getElem?.mp hr'
  obtain ⟨r, hr, -⟩ := hround
  simp only [World.updateRound, Table.modify_eq_set hr] at hn
  rcases Table.getElem?_set_cases hn with ⟨-, rfl, -⟩ | ⟨hne, hn⟩
  · exact hf r
  · exact h n r' hn hk hne

/-- Every accepted bet of the round is among the given rows. -/
def AcceptedAmong (id : Nat) (rest : List Nat) (w : World) : Prop :=
  ∀ n b, w.bets[n]? = some b → b.roundId = id → b.status = .accepted → n ∈ rest

/-- **The invariant of the loop**: the bets that are left are owed, no other bet of the round is
accepted, and the round is the active one and keeps its outcome. -/
structure Settling (P : Policy) (e : EngineRef) (polls id : Nat) (outcome : GameOutcome)
    (rest : List (Nat × Bet)) (w : World) : Prop where
  keyed : w.Keyed e
  round : w.RoundOf id e.key
  known : w.OutcomeKnown id
  owed : ∀ b ∈ rest, Owes (.iteration e polls) b.1 b.2 w ∧ b.2.roundId = id ∧
    ∃ s, w.sessions[b.2.sessionId]? = some s
  safe : ∀ b ∈ rest, Safe P (.iteration e polls) b.1 w
  closed : P.oneEngine → Closed e id w
  drawn : P.oneEngine → ∃ r, w.rounds[id]? = some r ∧ r.outcome = some outcome
  last : P.oneEngine → (w.activeIds e).getLast? = some id
  others : P.oneEngine → P.closed → w.OthersSettled e.key id
  accepted : P.oneEngine → P.inTime → AcceptedAmong id (rest.map Prod.fst) w

theorem settling_stable {id : Nat} {rest : List (Nat × Bet)} :
    Stable P i (.iteration e polls) (Settling P e polls id outcome rest) := by
  intro w w' hr h
  refine ⟨hr.later.keyed h.keyed, hr.later.roundOf h.round, hr.later.outcomeKnown h.known,
    fun b hb => ?_, fun b hb => safe_stable hr (h.safe b hb),
    fun hP => (hr.loop hP e polls rfl).closed hr.later (h.closed hP), fun hP => ?_,
    fun hP => ?_, fun hP hC => (hr.loop hP e polls rfl).othersSettled hr.later (h.others hP hC),
    fun hP hT => ?_⟩
  · obtain ⟨ho, hround, s, hs⟩ := h.owed b hb
    obtain ⟨s', hs', -⟩ := hr.later.session hs
    exact ⟨ho.later hr.later, hround, s', hs'⟩
  · obtain ⟨r, hrow, hout⟩ := h.drawn hP
    exact (hr.outcomes hP).drawn hrow hout
  · rw [(hr.loop hP e polls rfl).active h.keyed]
    exact h.last hP
  · intro n b' hb' hround hs
    obtain ⟨r, hrow, hk, ht⟩ := h.closed hP
    obtain ⟨b, hb, hb₀⟩ := (hr.loop hP e polls rfl).accepted hT hb' hs r (hround ▸ hrow) hk ht
    obtain ⟨b'', hb'', hbl⟩ := hr.later.bet hb
    rw [hb'] at hb''
    obtain rfl := Option.some.inj hb''
    exact h.accepted hP hT n b hb (hbl.roundId ▸ hround) hb₀

/-- The invariant speaks of the wallet only through what later worlds keep. -/
theorem Settling.addWalletCall {id : Nat} {rest : List (Nat × Bet)} {c : WalletCall}
    (h : Settling P e polls id outcome rest w) :
    Settling P e polls id outcome rest (w.addWalletCall c) :=
  ⟨h.keyed, h.round, h.known, h.owed, h.safe, h.closed, h.drawn, h.last, h.others,
    h.accepted⟩

theorem Settling.hand {id : Nat} {rest : List (Nat × Bet)} {s : Sent}
    (h : Settling P e polls id outcome rest w) : Settling P e polls id outcome rest (w.hand s) :=
  ⟨h.keyed, h.round, h.known, h.owed, h.safe, h.closed, h.drawn, h.last, h.others,
    h.accepted⟩

/-- The terms of a bet that is left, as the engine that settles it holds them. -/
theorem Settling.terms {id : Nat} {b : Nat × Bet} {rest : List (Nat × Bet)} {engine : Engine}
    (h : Settling P e polls id outcome (b :: rest) w) (he : w.engine? e = some engine)
    (hpriced : P.priced → w.Priced (.iteration e polls)) (hP : P.oneEngine) (hC : P.priced) :
    ∃ r, w.rounds[b.2.roundId]? = some r ∧ r.key = e.key ∧ r.outcome = some outcome ∧
      r.createdUnder = some engine.gameConfig ∧
        b.2.commissionMicro = engine.cfg.commissionMicro := by
  obtain ⟨⟨⟨x, hx, ht, -, hround, hterms⟩, -⟩, hid, -⟩ := h.owed b (List.mem_cons_self ..)
  obtain ⟨r, hr, hk, hclosed⟩ := h.closed hP
  obtain ⟨r', hr', hout⟩ := h.drawn hP
  obtain rfl := Option.some.inj (hr.symm.trans hr')
  have hxid : x.roundId = id := hround.trans hid
  obtain ⟨hcreated, hcommission⟩ := hpriced hC engine he x (List.mem_of_getElem? hx) ht
    (by rw [h.last hP, hxid]) r (by rw [hxid]; exact hr)
  refine ⟨r, by rw [hid]; exact hr, hk, hout, hcreated, ?_⟩
  rw [← (Bet.priced_of_terms hterms).2.2]
  exact hcommission hclosed

/-- **One bet of the loop is resolved**: its row is written with a status other than accepted. -/
theorem Settling.resolve {id betId : Nat} {bet : Bet} {rest : List (Nat × Bet)} {f : Bet → Bet}
    (h : Settling P e polls id outcome ((betId, bet) :: rest) w)
    (hstep : ∀ b, w.bets[betId]? = some b → b.status.taken = true → b.roundId = bet.roundId →
      b.terms = bet.terms → (P.oneEngine → b.status ≠ .voided) →
        BetStep P i (.iteration e polls) w b (f b))
    (hf : ∀ b, (f b).status ≠ .accepted) :
    Move P i (.iteration e polls) w (w.updateBet betId f) ∧
      Settling P e polls id outcome rest (w.updateBet betId f) := by
  obtain ⟨⟨⟨b, hb, ht, hu, hround, hterms⟩, hreach⟩, hid, -⟩ := h.owed _ (List.mem_cons_self ..)
  have hmove := updateBet_move (P := P) (i := i) (k := .iteration e polls) (w := w) betId
    (f := f) fun b₁ hb₁ => by
      rw [hb] at hb₁
      obtain rfl := Option.some.inj hb₁
      exact ⟨hround ▸ hreach, hstep b hb ht hround hterms
        ((h.safe _ (List.mem_cons_self ..)).not_voided hb)⟩
  refine ⟨hmove, hmove.later.keyed h.keyed, hmove.later.roundOf h.round,
    hmove.later.outcomeKnown h.known, fun b' hb' => ?_,
    fun b' hb' => (h.safe b' (List.mem_cons_of_mem _ hb')).move hmove (by simp), h.closed, h.drawn, h.last,
    h.others, fun hP hT n b' hb' hr hs => ?_⟩
  · obtain ⟨ho, hr, s, hs⟩ := h.owed b' (List.mem_cons_of_mem _ hb')
    exact ⟨ho.later hmove.later, hr, s, hs⟩
  · simp only [World.updateBet, Table.modify_eq_set hb] at hb'
    rcases Table.getElem?_set_cases hb' with ⟨rfl, rfl, -⟩ | ⟨hne, hb'⟩
    · exact absurd hs (hf b)
    · rcases List.mem_cons.mp (h.accepted hP hT n b' hb' hr hs) with hn | hn
      · exact absurd hn hne
      · exact hn

/-! ## The parts of the loop -/

section Loop

variable {id betId : Nat} {bet : Bet} {rest : List (Nat × Bet)}

/-- Closing a losing bet. -/
theorem closeLost_go {reason : String}
    (h : Settling P e polls id outcome ((betId, bet) :: rest) w) (hd : Lost P bet w) :
    Walk P i (.iteration e polls) (GameEngine.closeLost betId reason)
      (fun _ w' => Settling P e polls id outcome rest w') w := by
  have hlose : Walk P i (.iteration e polls)
      (Prog.modify fun w => w.updateBet betId (Bet.lose w.now))
      (fun _ w' => Settling P e polls id outcome rest w') w := by
    refine Go.modify fun w₁ hr _ _ => ?_
    obtain ⟨hmove, hnext⟩ := (settling_stable hr h).resolve (i := i) (f := Bet.lose w₁.now)
      (fun b _ ht hround hterms hv => .lose b _ rfl ht hv fun hP hC =>
        (lost_stable hr hd hP hC).later (.refl _) (.of_eq rfl) hterms hround)
      fun b => by simp [Bet.lose]
    exact ⟨hmove, fun _ => hnext⟩
  exact Go.bind_iff.mpr (hlose.mono fun _ _ h =>
    Walk.idle (Idle.resolveHeld _ _) h settling_stable)

/-- Recording the result of a credit. -/
theorem recordWin_go {gameCode : GameCode} {payoutMicro : Int} {winTxUuid requestUuid : Uuid}
    {res : WalletResponse} (huse : winTxUuid.use = .credit) (ho : requestUuid.owner = i)
    (h : Settling P e polls id outcome ((betId, bet) :: rest) w) (hd : Earned P bet payoutMicro w)
    (hq : w.Queueable requestUuid) :
    Walk P i (.iteration e polls) (GameEngine.recordWin e gameCode betId bet payoutMicro winTxUuid
      requestUuid res) (fun _ w' => Settling P e polls id outcome rest w') w := by
  unfold GameEngine.recordWin
  split
  · have hwin : Walk P i (.iteration e polls)
        (Prog.modify fun w => w.updateBet betId (Bet.win payoutMicro winTxUuid w.now))
        (fun _ w' => Settling P e polls id outcome rest w') w := by
      refine Go.modify fun w₁ hr _ _ => ?_
      obtain ⟨hmove, hnext⟩ := (settling_stable hr h).resolve (i := i)
        (f := Bet.win payoutMicro winTxUuid w₁.now) (fun b _ ht hround hterms hv =>
          .win b _ _ _ ht hv huse fun hP hC =>
            (earned_stable hr hd hP hC).later (.refl _) (.of_eq rfl) hterms hround)
        fun b => by simp [Bet.win]
      exact ⟨hmove, fun _ => hnext⟩
    exact Go.bind_iff.mpr (hwin.mono fun _ _ h => Walk.idle
      (Prog.Keeps.bind (Idle.resolveHeld _ _) fun _ => Idle.engineEmit _ _) h settling_stable)
  · have hfail : Walk P i (.iteration e polls)
        (Prog.modify fun w => w.updateBet betId (Bet.fail winTxUuid))
        (fun _ w' => (Settling P e polls id outcome rest w' ∧ Owes (.iteration e polls) betId bet w' ∧
          Safe P (.iteration e polls) betId w' ∧ Earned P bet payoutMicro w') ∧
            w'.Queueable requestUuid) w := by
      refine Go.modify fun w₁ hr _ _ => ?_
      have h₁ := settling_stable hr h
      obtain ⟨howes, hid, -⟩ := h₁.owed _ (List.mem_cons_self ..)
      obtain ⟨hmove, hnext⟩ := h₁.resolve (i := i) (f := Bet.fail winTxUuid)
        (fun b _ ht hround _ hv => .fail b _ ht hv (by rw [hround, hid]; exact h₁.known) huse)
        fun b => by simp [Bet.fail]
      have hq₁ := queueable_stable ho hr hq
      have hd₁ : Earned P bet payoutMicro w₁ := earned_stable hr hd
      exact ⟨hmove, fun _ => ⟨⟨hnext, howes.later hmove.later,
          (h₁.safe _ (List.mem_cons_self ..)).move hmove (by simp), fun hP hC =>
            (hd₁ hP hC).later hmove.later (.of_eq rfl) rfl rfl⟩,
        ⟨hq₁.serial, hq₁.jobs, hq₁.wire, hq₁.calls⟩⟩⟩
    refine Go.bind_iff.mpr (hfail.mono fun _ w hR => ?_)
    exact queueWin_go (fun _ => by simp) huse ho hR (fun hB => hB.2.1) (fun hB => hB.2.2.1)
      (fun hB hP hC => .inl (hB.2.2.2 hP hC))
      (settling_stable.and (owes_stable.and (safe_stable.and earned_stable)))
      fun hB _ _ => ⟨hB.1.keyed, hB.1.round, hB.1.known, hB.1.owed, hB.1.safe, hB.1.closed, hB.1.drawn,
        hB.1.last, hB.1.others, hB.1.accepted⟩

variable {plugin : GamePlugin} {gameCode : GameCode} {total : Int}

/-- Crediting a winning bet. -/
theorem payWin_go {payoutMicro : Int} (h : Settling P e polls id outcome ((betId, bet) :: rest) w)
    (hd : Earned P bet payoutMicro w) :
    Walk P i (.iteration e polls) (GameEngine.payWin env e gameCode betId bet payoutMicro)
      (fun _ w' => Settling P e polls id outcome rest w') w := by
  have hstable : Stable P i (.iteration e polls) fun w =>
      Settling P e polls id outcome ((betId, bet) :: rest) w ∧ Earned P bet payoutMicro w :=
    settling_stable.and earned_stable
  refine Go.bind_iff.mpr ((newUuid_go ⟨h, hd⟩ hstable).mono
    fun winTxUuid w ⟨hR, huse, _, _, _⟩ => ?_)
  refine Go.bind_iff.mpr ((newUuid_go hR hstable).mono
    fun requestUuid w ⟨hR, _, ho, hn, hq⟩ => ?_)
  refine Go.bind_iff.mpr ((invokeWin_go huse ho hn hq hR
    (fun hR => (hR.1.owed _ (List.mem_cons_self ..)).1)
    (fun hR => hR.1.safe _ (List.mem_cons_self ..)) (fun hR hP hC => .inl (hR.2 hP hC)) hstable
    (fun hR => ⟨hR.1.addWalletCall, hR.2⟩) fun hR => ⟨hR.1.hand, hR.2⟩).mono
      fun res w ⟨⟨h, hd⟩, hq⟩ => ?_)
  exact recordWin_go huse ho h hd hq

/-- Settling one bet. -/
theorem settleOne_go (hplugin : P.env.getPlugin e.key.gameCode = some plugin)
    (h : Settling P e polls id outcome ((betId, bet) :: rest) w) :
    Walk P i (.iteration e polls) (GameEngine.settleOne env e plugin gameCode outcome total
      (betId, bet)) (fun _ w' => Settling P e polls id outcome rest w') w := by
  refine Go.bind_iff.mpr ((engine_go h settling_stable).mono
    fun engine w ⟨h, he, _, hpriced⟩ => ?_)
  cases engine with
  | none =>
      obtain ⟨engine, he', -⟩ := h.keyed
      rw [he] at he'
      cases he'
  | some engine =>
      have hterms := h.terms he hpriced
      have hgame : ∀ {r : Round}, r.key = e.key → P.env.getPlugin r.gameCode = some plugin := by
        intro r hk
        rw [← hplugin, ← hk]
        rfl
      dsimp only
      split
      · rename_i hlost
        refine Go.bind_iff.mpr ((closeLost_go h fun hP hC => ?_).mono fun _ _ h => h)
        obtain ⟨r, hr, hk, hout, hcreated, hcommission⟩ := hterms hP hC
        refine ⟨r, _, plugin, outcome, hr, hcreated, hgame hk, hout, ?_⟩
        rw [hcommission]
        simpa using hlost
      · rename_i hwon
        have hearned : Earned P bet (plugin.settleBet ⟨bet.selection, bet.amountMicro, outcome,
            engine.gameConfig, engine.cfg.commissionMicro⟩).payoutMicro w := fun hP hC => by
          obtain ⟨r, hr, hk, hout, hcreated, hcommission⟩ := hterms hP hC
          have hpays := Env.Settles.of_won (b := bet) (hgame hk) hout hwon
          exact ⟨r, _, hr, hcreated, by rw [hcommission]; exact hpays⟩
        generalize (plugin.settleBet _).payoutMicro = payoutMicro at hearned
        have hsession : Walk P i (.iteration e polls)
            (Action.findUnique World.sessions bet.sessionId) (fun session w' =>
              (Settling P e polls id outcome ((betId, bet) :: rest) w' ∧
                Earned P bet payoutMicro w') ∧ session.isSome = true) w := by
          refine Go.query (fun w => .idle (.refl w)) fun w₁ hr _ => ?_
          have h₁ := settling_stable hr h
          obtain ⟨-, -, s, hs⟩ := h₁.owed _ (List.mem_cons_self ..)
          exact ⟨⟨h₁, earned_stable hr hearned⟩, by rw [hs]; rfl⟩
        refine Go.bind_iff.mpr (hsession.mono fun session w ⟨⟨h, hd⟩, hsome⟩ => ?_)
        cases session with
        | none => cases hsome
        | some session => exact Go.bind_iff.mpr ((payWin_go h hd).mono fun _ _ h => h)

end Loop

/-! ## The settlement of the active round -/

/-- A round that takes no bets any more, and whose outcome is stored; the other rounds of its key are
settled, as far as the policy knows. -/
structure Shown (P : Policy) (e : EngineRef) (id : Nat) (w : World) : Prop where
  closed : Closed e id w
  known : w.OutcomeKnown id
  others : P.closed → w.OthersSettled e.key id

theorem LoopRely.shown (hl : Later w w') (h : LoopRely P e w w') {id : Nat}
    (hs : Shown P e id w) : Shown P e id w' :=
  ⟨h.closed hl hs.closed, hl.outcomeKnown hs.known, fun hC => h.othersSettled hl (hs.others hC)⟩

/-- The last round that the engine made active was rolled and shown. -/
structure Rolled (P : Policy) (e : EngineRef) (w : World) : Prop where
  keyed : w.Keyed e
  last : P.oneEngine → ∃ id, (w.activeIds e).getLast? = some id ∧ Shown P e id w

theorem rolled_stable : Stable P i (.iteration e polls) (Rolled P e) := by
  intro w w' hr h
  refine ⟨hr.later.keyed h.keyed, fun hP => ?_⟩
  obtain ⟨id, hlast, hshown⟩ := h.last hP
  have hloop := hr.loop hP e polls rfl
  exact ⟨id, by rw [hloop.active h.keyed, hlast], hloop.shown hr.later hshown⟩

/-- Every round of the engine is settled, as far as the policy knows. -/
structure Clear (P : Policy) (e : EngineRef) (w : World) : Prop where
  keyed : w.Keyed e
  settled : P.oneEngine → P.closed → w.AllSettled e.key

theorem clear_stable : Stable P i (.iteration e polls) (Clear P e) := by
  intro w w' hr h
  refine ⟨hr.later.keyed h.keyed, fun hP hC r' hr' hk => ?_⟩
  obtain ⟨n, hn⟩ := List.mem_iff_getElem?.mp hr'
  obtain ⟨r, hrow, -, -, hs⟩ := (hr.loop hP e polls rfl).rounds hn hk
  obtain ⟨r₀, hr₀, hl⟩ := hr.later.round hrow
  obtain rfl := Option.some.inj (hn.symm.trans hr₀)
  rw [hs]
  exact h.settled hP hC r (List.mem_of_getElem? hrow) (hl.key.symm.trans hk)

/-- The last round that the engine made active, as `settle` finds it. -/
structure LastShown (P : Policy) (e : EngineRef) (id : Nat) (w : World) : Prop where
  keyed : w.Keyed e
  round : w.RoundOf id e.key
  last : P.oneEngine → (w.activeIds e).getLast? = some id
  shown : P.oneEngine → Shown P e id w

theorem lastShown_stable {id : Nat} : Stable P i (.iteration e polls) (LastShown P e id) := by
  intro w w' hr h
  refine ⟨hr.later.keyed h.keyed, hr.later.roundOf h.round, fun hP => ?_,
    fun hP => (hr.loop hP e polls rfl).shown hr.later (h.shown hP)⟩
  rw [(hr.loop hP e polls rfl).active h.keyed]
  exact h.last hP

/-- **Settling the active round.** -/
theorem settle_go {plugin : GamePlugin} (hplugin : P.env.getPlugin e.key.gameCode = some plugin)
    (h : Rolled P e w) :
    Walk P i (.iteration e polls) (GameEngine.settle env e plugin) (fun _ w' => Clear P e w') w := by
  have hengine : Walk P i (.iteration e polls) (Action.engine e) (fun engine w' =>
      (engine.bind Engine.active = none → Clear P e w') ∧
        ∀ active, engine.bind Engine.active = some active → LastShown P e active.id w') w := by
    refine Go.query (fun w => .idle (.refl w)) fun w₁ hr hs => ?_
    obtain ⟨hk, hrolled⟩ := rolled_stable hr h
    refine ⟨fun hnone => ⟨hk, fun hP _ => ?_⟩, fun active ha => ?_⟩
    · obtain ⟨id, hlast, -⟩ := hrolled hP
      obtain ⟨engine, he, -⟩ := hk
      rw [he, Option.bind_some, Engine.active, List.getLast?_eq_none_iff] at hnone
      simp [World.activeIds, he, hnone] at hlast
    · obtain ⟨engine, he, ha⟩ := Option.bind_eq_some_iff.mp ha
      have hlast := getLast?_activeIds he ha
      refine ⟨hk, hs.activeKey hk (List.mem_of_getLast? hlast), fun _ => hlast, fun hP => ?_⟩
      obtain ⟨id, hid, hshown⟩ := hrolled hP
      obtain rfl := Option.some.inj (hid.symm.trans hlast)
      exact hshown
  refine Go.bind_iff.mpr (hengine.mono fun engine w h => ?_)
  obtain ⟨hnone, hactive⟩ := h
  split
  · exact hnone (by assumption)
  rename_i active ha
  have hround : Walk P i (.iteration e polls) (Action.findUnique World.rounds active.id)
      (fun round w' => LastShown P e active.id w' ∧ w'.rounds[active.id]? = round) w :=
    Go.query (fun w => .idle (.refl w)) fun w₁ hr _ =>
      ⟨lastShown_stable hr (hactive active ha), rfl⟩
  refine Go.bind_iff.mpr (hround.mono fun round w hR => ?_)
  obtain ⟨hR, hrow⟩ := hR
  split
  swap
  · -- a round that was shown has its outcome stored
    rename_i hnone
    refine ⟨hR.keyed, fun hP _ => ?_⟩
    obtain ⟨r, hr, hout⟩ := (hR.shown hP).known
    obtain ⟨outcome, hout⟩ := Option.isSome_iff_exists.mp hout
    rw [hr] at hrow
    exact absurd (by rw [← hrow, Option.bind_some, hout]) (hnone r outcome hrow.symm)
  rename_i round outcome hout
  have hout' : round.outcome = some outcome := by simpa using hout
  have hknown : w.OutcomeKnown active.id := ⟨round, hrow, by rw [hout']; rfl⟩
  -- the bets that the loop takes are all that are accepted now
  have hbets : Walk P i (.iteration e polls) (Action.findInOrder World.bets fun b =>
      b.roundId = active.id ∧ b.status = .accepted)
      (fun bets w' => Settling P e polls active.id outcome bets w') w := by
    refine Go.query (fun w => .idle (.refl w)) fun w₁ hr hs => ?_
    obtain ⟨hk, hround, hlast, hshown⟩ := lastShown_stable hr hR
    refine ⟨hk, hround, hr.later.outcomeKnown hknown, fun b hb => ?_, fun b hb hP => ?_,
      fun hP => (hshown hP).closed,
      fun hP => (hr.outcomes hP).drawn hrow hout', hlast, fun hP => (hshown hP).others,
      fun _ _ => ?_⟩
    · obtain ⟨hrow, hp⟩ := Table.mem_select.mp hb
      simp only [decide_eq_true_eq] at hp
      exact ⟨.of_read hrow (by rw [hp.2]; rfl) (hp.1 ▸ hround), hp.1,
        hs.betSession (List.mem_of_getElem? hrow)⟩
    · obtain ⟨hrow, hp⟩ := Table.mem_select.mp hb
      simp only [decide_eq_true_eq] at hp
      refine ⟨b.2, hrow, ⟨hk, by rw [hp.1]; exact List.mem_of_getLast? (hlast hP)⟩, ?_⟩
      rw [hp.2]
      simp
    · exact fun n b hb hround hs => List.mem_map_of_mem (f := Prod.fst) (a := (n, b))
        (Table.mem_select.mpr ⟨hb, by simp [hround, hs]⟩)
  refine Go.bind_iff.mpr (hbets.mono fun bets w h => ?_)
  refine Walk.idle_bind (Idle.findInOrder _ _) h settling_stable fun preCashed w h => ?_
  have hloop : Walk P i (.iteration e polls)
      (Prog.fold (GameEngine.settleOne env e plugin round.gameCode outcome)
        (preCashed.map fun b => b.2.cashoutPayoutMicro.getD 0).sum bets)
      (fun _ w' => Settling P e polls active.id outcome [] w') w :=
    Go.fold (fun _ rest w => Settling P e polls active.id outcome rest w) h
      (fun _ _ _ _ h => settleOne_go hplugin h) fun _ _ h => h
  refine Go.bind_iff.mpr (hloop.mono fun total w h => ?_)
  -- no bet is left, so none is accepted
  have hsettle : Walk P i (.iteration e polls)
      (Prog.modify fun w => w.updateRound active.id (Round.settle total w.now))
      (fun _ w' => Clear P e w') w := by
    refine Go.modify fun w₁ hr _ _ => ?_
    have h₁ := settling_stable hr h
    have hmove := updateRound_move (P := P) (i := i) (k := .iteration e polls) (w := w₁) active.id
      (f := Round.settle total w₁.now) h₁.round fun r _ =>
        .settle r total _ rfl fun hP hT b hb hround hs => by
          obtain ⟨n, hn⟩ := List.mem_iff_getElem?.mp hb
          exact absurd (h₁.accepted hP hT n b hn hround hs) (List.not_mem_nil)
    exact ⟨hmove, fun _ => ⟨hmove.later.keyed h₁.keyed, fun hP hC =>
      (h₁.others hP hC).settle h₁.round fun _ => rfl⟩⟩
  refine Go.bind_iff.mpr (hsettle.mono fun _ w h => Go.bind_iff.mpr
    ((updateActive_go (fun _ _ => by rfl) h clear_stable fun h => h.keyed).mono fun _ w h => ?_))
  exact Walk.idle (Idle.emitPoolUpdate _ _) h clear_stable

end YantraRgs
