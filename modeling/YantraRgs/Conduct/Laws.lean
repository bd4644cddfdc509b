import YantraRgs.Conduct.Origin

/-! # The rules fit together

* **`Sound.move`**, **`Sound.outer`** — every permitted action and every outside event keep the
  invariant of the tables.
* **`Move.rely`**, **`Outer.rely`** — an action of one call, and an outside event, do only what
  every other call expects. -/

namespace YantraRgs

open Await

variable {P : Policy} {i j : Nat} {k l : Call} {w w' : World}

/-- What a job's request takes from the job. -/
theorem PendingWalletJob.request_fields {j : PendingWalletJob} {req : WalletRequest}
    (h : j.request = some req) : req.requestUuid = j.payload.requestUuid ∧
      req.endpoint = j.endpoint ∧ (j.endpoint = .win ∨ j.endpoint = .rollback →
        req.referenceTransactionUuid = j.payload.referenceTransactionUuid ∧
        req.transactionUuid = some j.payload.transactionUuid) := by
  unfold PendingWalletJob.request at h
  split at h <;> simp_all <;> subst h <;> simp_all

/-- How a session's seed may step. -/
theorem SessionStep.seed {id : Nat} {s s' : GameSession} (h : SessionStep w id s s') :
    s'.serverSeed = s.serverSeed ∨ s'.serverSeed = ⟨w.serial, id⟩ := by
  cases h with
  | terminate => exact .inl rfl
  | countUp => exact .inl rfl
  | reseed => exact .inr rfl

/-- The engine of a call, and the key of what it reaches. -/
theorem Sound.reaches (h : Sound P w) {id : Nat} (hr : w.Reaches k id) :
    ∃ e, k.engine? = some e ∧ w.RoundOf id e.key := by
  cases k with
  | start e => exact ⟨e, rfl, hr⟩
  | iteration e polls => exact ⟨e, rfl, hr⟩
  | placeBet e params => exact ⟨e, rfl, h.activeKey hr.1 hr.2⟩
  | cashOut e params => exact ⟨e, rfl, h.activeKey hr.1 hr.2⟩
  | _ => exact hr.elim

/-- Two references to one engine carry one key. -/
theorem World.Keyed.unique {e e' : EngineRef} (h : w.Keyed e) (h' : w.Keyed e')
    (hi : e.index = e'.index) : e.key = e'.key := by
  obtain ⟨engine, he, hk⟩ := h
  obtain ⟨engine', he', hk'⟩ := h'
  simp only [World.engine?] at he he'
  rw [hi, he'] at he
  obtain rfl := Option.some.inj he
  exact hk.symm.trans hk'

/-! ## The invariant is kept -/

/-- The tables of a server that was never used. -/
theorem Sound.initial (operators : List OperatorRow) (credentials : List OperatorCredential)
    (gameConfigs : List OperatorGameConfig) :
    Sound P (World.initial operators credentials gameConfigs) := by
  constructor <;> simp [World.initial, World.activeIds, World.engine?, World.RequestKnown]

/-- A row of the round table, with what it was before the action. -/
theorem Move.mem_rounds (h : Move P i k w w') {r' : Round} (hr : r' ∈ w'.rounds) :
    (∃ r ∈ w.rounds, r'.identity = r.identity) ∨ (NewRound P k w r' ∧ w'.sessions = w.sessions) := by
  cases h with
  | idle h => exact .inl ⟨r', by rw [← h.rounds]; exact hr, rfl⟩
  | addRound r h =>
      rcases List.mem_append.mp hr with hr | hr
      · exact .inl ⟨r', hr, rfl⟩
      · obtain rfl := List.mem_singleton.mp hr
        exact .inr ⟨h, rfl⟩
  | round m r t hm hk h =>
      rcases Table.mem_set_cases hr with rfl | hr
      · exact .inl ⟨r, List.mem_of_getElem? hm, h.later.identity⟩
      · exact .inl ⟨r', hr, rfl⟩
  | _ => exact .inl ⟨r', hr, rfl⟩

theorem seedBound_move (hw : Sound P w) (h : Move P i k w w') {id : Nat} {s' : GameSession}
    (hs : w'.sessions[id]? = some s') : s'.serverSeed.serial < w'.serial := by
  rcases h.session_origin hs with ⟨s, hs, rfl | ⟨hstep, hlt⟩⟩ | ⟨-, he, hlt⟩
  · exact Nat.lt_of_lt_of_le (hw.seedBound hs) h.later.serial
  · by_cases he : s'.serverSeed = s.serverSeed
    · rw [he]
      exact Nat.lt_of_lt_of_le (hw.seedBound hs) h.later.serial
    · rcases hstep.seed with he' | he'
      · exact absurd he' he
      · rw [he']
        exact hlt he
  · rw [he]
    exact hlt

theorem seedOwner_move (hw : Sound P w) (h : Move P i k w w') {id : Nat} {s' : GameSession}
    (hs : w'.sessions[id]? = some s') : s'.serverSeed.session = id := by
  rcases h.session_origin hs with ⟨s, hs, rfl | ⟨hstep, -⟩⟩ | ⟨-, he, -⟩
  · exact hw.seedOwner hs
  · rcases hstep.seed with he | he
    · rw [he]
      exact hw.seedOwner hs
    · rw [he]
  · rw [he]

theorem roundOwner_move (hw : Sound P w) (h : Move P i k w w') {r' : Round}
    (hr : r' ∈ w'.rounds) : r'.serverSeed.session = r'.sessionId := by
  rcases h.mem_rounds hr with ⟨r, hr, hid⟩ | ⟨hnew, -⟩
  · have hseed : r'.serverSeed = r.serverSeed := congrArg (fun t => t.2.2.1) hid
    have hsid : r'.sessionId = r.sessionId := congrArg (fun t => t.2.1) hid
    rw [hseed, hsid, hw.roundOwner hr]
  · exact hnew.session

/-- A roll stores what the game draws, and notes what it was drawn under. -/
theorem Draws.fair {r : Round} (r' : Round) (h : Draws P r r'.outcome r'.drawnUnder)
    (hr : r.Fair P.env) (hk : r'.key = r.key) (hctx : r'.rngContext = r.rngContext) :
    r'.Fair P.env := by
  have hgame : r'.gameCode = r.gameCode := congrArg EngineKey.gameCode hk
  intro outcome ho
  rw [hgame, hctx]
  generalize ho' : r'.outcome = stored at h ho
  generalize hd' : r'.drawnUnder = drawnUnder at h
  cases h with
  | keep =>
      obtain ⟨plugin, config, hplugin, hdrawn, hout⟩ := hr outcome ho
      exact ⟨plugin, config, hplugin, hdrawn, hout⟩
  | draw plugin config hplugin hn =>
      exact ⟨plugin, config, hplugin, rfl, (Option.some.inj ho).symm⟩

/-- A round step keeps the outcome fair. -/
theorem RoundStep.fair {id : Nat} {r r' : Round} (h : RoundStep P k w id r r')
    (hr : r.Fair P.env) : r'.Fair P.env := by
  cases h with
  | note => exact hr
  | roll outcome drawnUnder hk hs hd =>
      exact Draws.fair { r with state := .rolling, outcome, drawnUnder } hd hr rfl rfl
  | result outcome drawnUnder at' hk hd =>
      exact Draws.fair { r with state := .result, outcome, drawnUnder, rolledAt := at' } hd hr
        rfl rfl
  | settle => exact hr
  | void => exact hr

theorem fair_move (hw : Sound P w) (h : Move P i k w w') {r' : Round} (hr : r' ∈ w'.rounds) :
    r'.Fair P.env := by
  obtain ⟨n, hn⟩ := List.mem_iff_getElem?.mp hr
  rcases h.round_origin hn with ⟨r, hr, rfl | ⟨hstep, -⟩⟩ | ⟨-, hnew⟩
  · exact hw.fair (List.mem_of_getElem? hr)
  · exact hstep.fair (hw.fair (List.mem_of_getElem? hr))
  · intro outcome ho
    rw [hnew.outcome] at ho
    cases ho

theorem activeContext_move (hw : Sound P w) (h : Move P i k w w') {engine' : Engine}
    (he : engine' ∈ w'.engines) {a' : ActiveRound} (ha : a' ∈ engine'.actives) :
    ∃ r, w'.rounds[a'.id]? = some r ∧ r.rngContext = GameEngine.rngContext a' := by
  rcases h.actives_origin he ha with ⟨engine, he, a, ha, htracked⟩ | hnew
  · obtain ⟨r, hr, hctx⟩ := hw.activeContext he a ha
    obtain ⟨r', hr', hl⟩ := h.later.round hr
    have hid : a.id = a'.id := congrArg Prod.fst htracked
    refine ⟨r', hid ▸ hr', hl.rngContext.trans (hctx.trans ?_)⟩
    exact congrArg Prod.snd htracked
  · exact hnew

theorem roundEngine_move (hw : Sound P w) (h : Move P i k w w') {r' : Round}
    (hr : r' ∈ w'.rounds) : ∃ s, w'.sessions[r'.sessionId]? = some s ∧
      s.operatorId = r'.operatorId ∧ s.playerRef = .engine r'.gameCode r'.currency := by
  rcases h.mem_rounds hr with ⟨r, hr, hid⟩ | ⟨hnew, hsame⟩
  · obtain ⟨s, hs, ho, hp⟩ := hw.roundEngine hr
    obtain ⟨s', hs', hsid⟩ := h.later.session hs
    have hkey : r'.key = r.key := congrArg (fun t => t.1) hid
    have hop : r'.operatorId = r.operatorId := congrArg EngineKey.operatorId hkey
    have hgc : r'.gameCode = r.gameCode := congrArg EngineKey.gameCode hkey
    have hcu : r'.currency = r.currency := congrArg EngineKey.currency hkey
    refine ⟨s', ?_, ?_, ?_⟩
    · rw [show r'.sessionId = r.sessionId from congrArg (fun t => t.2.1) hid, hs']
    · rw [show s'.operatorId = s.operatorId from congrArg (fun t => t.1) hsid, ho, hop]
    · rw [show s'.playerRef = s.playerRef from congrArg (fun t => t.2) hsid, hp, hgc, hcu]
  · rw [hsame]
    exact hnew.engine

theorem activeKey_move (hw : Sound P w) (h : Move P i k w w') {e : EngineRef} {id : Nat}
    (hk : w'.Keyed e) (hid : id ∈ w'.activeIds e) : w'.RoundOf id e.key := by
  have hk₀ : w.Keyed e := (h.keyed_iff e).mp hk
  rcases h.active_origin hid with hid | ⟨e', polls, -, hidx, hk', hr⟩
  · exact h.later.roundOf (hw.activeKey hk₀ hid)
  · rw [← hk'.unique hk₀ hidx]
    exact h.later.roundOf hr

theorem betOwner_move (hw : Sound P w) (h : Move P i k w w') {id id' : Nat} {b b' : Bet}
    (hb : w'.bets[id]? = some b) (hb' : w'.bets[id']? = some b')
    (he : b.betTransactionUuid.owner = b'.betTransactionUuid.owner) : id = id' := by
  have hold : ∀ {n : Nat} {x : Bet}, w'.bets[n]? = some x →
      (∃ y, w.bets[n]? = some y ∧ y.betTransactionUuid = x.betTransactionUuid) ∨
        (n = w.bets.length ∧ NewBet i k w x) := by
    intro n x hx
    rcases h.bet_origin hx with ⟨y, hy, -⟩ | hnew
    · obtain ⟨x', hx', hl⟩ := h.later.bet hy
      rw [hx] at hx'
      obtain rfl := Option.some.inj hx'
      exact .inl ⟨y, hy, hl.betTransactionUuid.symm⟩
    · exact .inr hnew
  rcases hold hb with ⟨y, hy, hey⟩ | ⟨rfl, hnew⟩ <;> rcases hold hb' with ⟨y', hy', hey'⟩ | ⟨rfl, hnew'⟩
  · exact hw.betOwner hy hy' (by rw [hey, hey', he])
  · exact absurd (by rw [hey, he, hnew'.owner]) (hnew'.sole y (List.mem_of_getElem? hy))
  · exact absurd (by rw [hey', ← he, hnew.owner]) (hnew.sole y' (List.mem_of_getElem? hy'))
  · rfl

/-- A bet that is open after a step was open before, with the same columns of a payment. -/
theorem BetStep.open {b b' : Bet} (h : BetStep P i k w b b')
    (ho : b'.status = .pending ∨ b'.status = .accepted) :
    (b.status = .pending ∨ b.status = .accepted) ∧
      b'.winTransactionUuid = b.winTransactionUuid ∧ b'.cashoutPayoutMicro = b.cashoutPayoutMicro := by
  cases h with
  | accept hi hb => exact ⟨.inl hb, rfl, rfl⟩
  | reject hi hb => simp at ho
  | lose => simp [Bet.lose] at ho
  | win => simp [Bet.win] at ho
  | fail => simp [Bet.fail] at ho
  | cashOut mode m ms payout u status now hb hv hs hu hd =>
      rcases hs with rfl | rfl <;> simp [Bet.cashOut] at ho
  | void => simp [Bet.void] at ho

/-- A bet is voided by the start of an engine that has not made a round active yet. -/
theorem BetStep.voided {b b' : Bet} (h : BetStep P i k w b b')
    (hv : b'.status = .voided) : ∃ e, k = .start e ∧ (P.oneEngine → w.activeIds e = []) := by
  cases h with
  | cashOut mode m ms payout u status now ht hn hs => rcases hs with rfl | rfl <;> cases hv
  | void ht hr hk => exact hk
  | _ => cases hv

/-- A win transaction noted on a bet is a credit. -/
theorem BetStep.betWin {b b' : Bet} (h : BetStep P i k w b b')
    (hb : ∀ u, b.winTransactionUuid = some u → u.use = .credit) {u : Uuid}
    (hu : b'.winTransactionUuid = some u) : u.use = .credit := by
  cases h with
  | win payout v now ht hn hv => exact Option.some.inj hu ▸ hv
  | fail v ht hn ho hv => exact Option.some.inj hu ▸ hv
  | cashOut mode m ms payout v status now ht hn hs hv => exact Option.some.inj hu ▸ hv
  | _ => exact hb u hu

/-- What an action does to the members of the bet table. -/
theorem Move.mem_bets (h : Move P i k w w') {b' : Bet} (hb : b' ∈ w'.bets) :
    (∃ b ∈ w.bets, b.Later b' ∧ (b' = b ∨ BetStep P i k w b b')) ∨ NewBet i k w b' := by
  obtain ⟨n, hn⟩ := List.mem_iff_getElem?.mp hb
  rcases h.bet_origin hn with ⟨b, hb, he⟩ | ⟨-, hnew⟩
  · refine .inl ⟨b, List.mem_of_getElem? hb, ?_, he.imp_right And.left⟩
    rcases he with rfl | ⟨hs, -⟩
    · exact .refl _
    · exact hs.later
  · exact .inr hnew

theorem jobSole_move (hw : Sound P w) (h : Move P i k w w') {id id' : Nat}
    {j j' : PendingWalletJob} (hj : w'.jobs[id]? = some j) (hj' : w'.jobs[id']? = some j')
    (he : j.payload.requestUuid = j'.payload.requestUuid) : id = id' := by
  have hold : ∀ {n : Nat} {x : PendingWalletJob}, w'.jobs[n]? = some x →
      (∃ y, w.jobs[n]? = some y ∧ x.payload = y.payload) ∨
        (n = w.jobs.length ∧ NewJob P i k w x) := by
    intro n x hx
    rcases h.job_origin hx with ⟨y, hy, rfl | hs⟩ | hnew
    · exact .inl ⟨_, hy, rfl⟩
    · exact .inl ⟨y, hy, hs.later.payload⟩
    · exact .inr hnew
  rcases hold hj with ⟨y, hy, hey⟩ | ⟨rfl, hnew⟩ <;> rcases hold hj' with ⟨y', hy', hey'⟩ | ⟨rfl, hnew'⟩
  · exact hw.jobSole hy hy' (by rw [← hey, ← hey', he])
  · exact absurd (by rw [← hey, he]) (hnew'.request y (List.mem_of_getElem? hy))
  · exact absurd (by rw [← hey', ← he]) (hnew.request y' (List.mem_of_getElem? hy'))
  · rfl

/-- The bet behind a job stays behind it. -/
theorem World.Backs.later {b : Bet} {x x' : PendingWalletJob} (h : w.Backs x b) (hw : Later w w')
    (hx : x.Later x') : ∃ b', w'.Backs x' b' := by
  obtain ⟨⟨id, hid, hb⟩, href, hp⟩ := h
  obtain ⟨b', hb', hl⟩ := hw.bet hb
  have hend : x'.endpoint = x.endpoint := congrArg (fun t => t.2.1) hx.identity
  refine ⟨b', ⟨id, ?_, hb'⟩, ?_, ?_⟩
  · exact (congrArg (fun t => t.2.2.1) hx.identity).trans hid
  · rw [hx.payload, href, hl.betTransactionUuid]
  · rw [hend, hx.payload]
    rcases hp with ⟨he, hn⟩ | ⟨he, ht, hu⟩
    · exact .inl ⟨he, fun hpend => hn (hl.pending hpend)⟩
    · exact .inr ⟨he, hl.taken ht, hu⟩

theorem jobBet_move (hw : Sound P w) (h : Move P i k w w') {j' : PendingWalletJob}
    (hj : j' ∈ w'.jobs) : ∃ b, w'.Backs j' b := by
  obtain ⟨n, hn⟩ := List.mem_iff_getElem?.mp hj
  rcases h.job_origin hn with ⟨x, hx, hstep⟩ | ⟨-, hnew⟩
  · obtain ⟨b, hb⟩ := hw.jobBet (List.mem_of_getElem? hx)
    refine hb.later h.later ?_
    rcases hstep with rfl | hs
    · exact .refl _
    · exact hs.later
  · obtain ⟨id, b, hid, hb, href, -, hp⟩ := hnew.bet
    have hback : w.Backs j' b := by
      refine ⟨⟨id, hid, hb⟩, href, ?_⟩
      cases hp with
      | refund he hn _ => exact .inl ⟨he, hn⟩
      | credit he ht hv hu hd => exact .inr ⟨he, ht, hu⟩
    exact hback.later h.later (.refl _)

/-- A job's request is on no new line of the wire or the journal unless its holder put it there. -/
theorem Sound.holder_of_handing (hw : Sound P w) (hP : P.freeLocks) {x : PendingWalletJob}
    (hx : x ∈ w.jobs) {s : Sent} (h : Handing P i k w s)
    (hq : s.request.requestUuid = x.payload.requestUuid) :
    x.lockedUntil.map JobLock.holder = some i := by
  cases h with
  | stake b hb hi hp he ht ha ho hwire hj => exact absurd hq.symm (hj x hx)
  | credit b hb ht hv hr he hs u hu huse ha ho hwire hj => exact absurd hq.symm (hj x hx)
  | job y hy hreq hlt =>
      obtain ⟨n, hn⟩ := List.mem_iff_getElem?.mp hx
      obtain ⟨m, hm⟩ := List.mem_iff_getElem?.mp hy.1
      have hnm := hw.jobSole hn hm (by rw [← hq, (PendingWalletJob.request_fields hreq).1])
      subst hnm
      rw [hn] at hm
      obtain rfl := Option.some.inj hm
      exact (hy.2 hP).1

theorem Sound.holder_of_call (hw : Sound P w) (hP : P.freeLocks) {x : PendingWalletJob}
    (hx : x ∈ w.jobs) {c : WalletCall} (h : NewCall P i w c)
    (hq : c.requestUuid = x.payload.requestUuid) :
    x.lockedUntil.map JobLock.holder = some i := by
  cases h with
  | first ho hn ha => exact absurd (.inr (.inr ⟨x, hx, hq.symm⟩)) hn
  | again y hy hcq =>
      obtain ⟨n, hn⟩ := List.mem_iff_getElem?.mp hx
      obtain ⟨m, hm⟩ := List.mem_iff_getElem?.mp hy.1
      have hnm := hw.jobSole hn hm (by rw [← hq, hcq])
      subst hnm
      rw [hn] at hm
      obtain rfl := Option.some.inj hm
      exact (hy.2 hP).1

/-- Whether a job is in step with the journal depends on the wire, the journal and its request. -/
theorem World.Tallied.congr {x x' : PendingWalletJob} {n : Nat} (h : w.Tallied x n)
    (hwire : w'.wire = w.wire) (hcalls : w'.walletCalls = w.walletCalls)
    (hq : x'.payload.requestUuid = x.payload.requestUuid) : w'.Tallied x' n :=
  ⟨fun s hs he => h.wire s (hwire ▸ hs) (he.trans hq),
    fun c hc he => h.calls c (hcalls ▸ hc) (he.trans hq)⟩

theorem World.Countable.congr {x : PendingWalletJob} (h : w.Countable x)
    (hwire : w'.wire = w.wire) (hcalls : w'.walletCalls = w.walletCalls) : w'.Countable x := by
  rcases h with ht | ⟨ha, hs⟩
  · exact .inl (ht.congr hwire hcalls rfl)
  · exact .inr ⟨ha, hwire.symm ▸ hs⟩

theorem locks_move (hw : Sound P w) (h : Move P i k w w') (hP : P.freeLocks)
    {j' : PendingWalletJob} (hj : j' ∈ w'.jobs) (hl : j'.lockedUntil = none) :
    w'.Countable j' := by
  cases h with
  | idle h =>
      have hold := hw.locks hP (h.jobs ▸ hj) hl
      have hcalls : ∀ c ∈ w'.walletCalls, ∃ c₀ ∈ w.walletCalls, c₀.key = c.key := by
        intro c hc
        have hmem : c.key ∈ w'.walletCalls.map WalletCall.key := List.mem_map_of_mem hc
        rw [h.calls] at hmem
        exact List.mem_map.mp hmem
      rcases hold with ht | ⟨ha, hs⟩
      · refine .inl ⟨fun s hs => ht.wire s (h.wire ▸ hs), fun c hc hq => ?_⟩
        obtain ⟨c₀, hc₀, hk⟩ := hcalls c hc
        have hq₀ : c₀.requestUuid = c.requestUuid := congrArg (fun t => t.2.2.1) hk
        have ha₀ : c₀.attempt = c.attempt := congrArg (fun t => t.2.2.2) hk
        exact ha₀ ▸ ht.calls c₀ hc₀ (hq₀.trans hq)
      · exact .inr ⟨ha, h.wire.symm ▸ hs⟩
  | addJob x hx =>
      rcases List.mem_append.mp hj with hj | hj
      · exact (hw.locks hP hj hl).congr rfl rfl
      · obtain rfl := List.mem_singleton.mp hj
        by_cases hs : ∃ s ∈ w.wire, s.request.requestUuid = j'.payload.requestUuid
        · exact .inr ⟨hx.attempts, hs⟩
        · exact .inl ⟨fun s hmem hq => absurd ⟨s, hmem, hq⟩ hs,
            fun c hmem hq => absurd (hx.journalled c hmem hq).2 hs⟩
  | job m x x' hm hstep =>
      rcases Table.mem_set_cases hj with rfl | hj
      · cases hstep with
        | lock => cases hl
        | complete attempts now ha hun => exact .inl ((hun hP).tallied.congr rfl rfl rfl)
        | putOff attempts error next hun => exact .inl ((hun hP).tallied.congr rfl rfl rfl)
      · exact (hw.locks hP hj hl).congr rfl rfl
  | addCall c hc hk =>
      rcases hw.locks hP hj hl with ht | hs
      · refine .inl ⟨ht.wire, fun d hd hq => ?_⟩
        rcases List.mem_append.mp hd with hd | hd
        · exact ht.calls d hd hq
        · obtain rfl := List.mem_singleton.mp hd
          have hh := hw.holder_of_call hP hj hc hq
          rw [hl] at hh
          cases hh
      · exact .inr hs
  | hand s hc h hr =>
      rcases hw.locks hP hj hl with ht | ⟨ha, t, ht, hq⟩
      · refine .inl ⟨fun d hd hq => ?_, ht.calls⟩
        rcases List.mem_append.mp hd with hd | hd
        · exact ht.wire d hd hq
        · obtain rfl := List.mem_singleton.mp hd
          have hh := hw.holder_of_handing hP hj h hq
          rw [hl] at hh
          cases hh
      · exact .inr ⟨ha, t, List.mem_append_left _ ht, hq⟩
  | _ => exact (hw.locks hP hj hl).congr rfl rfl

theorem known_move (hw : Sound P w) (h : Move P i k w w') {q : Uuid} (hq : w'.RequestKnown q) :
    q.serial < w'.serial := by
  have hold : ∀ {u : Uuid}, w.RequestKnown u → u.serial < w'.serial :=
    fun hu => Nat.lt_of_lt_of_le (hw.known hu) h.later.serial
  rcases hq with ⟨s, hs, rfl⟩ | ⟨c, hc, rfl⟩ | ⟨x, hx, rfl⟩
  · rcases h.wire_origin hs with hs | ⟨-, -, hh, -⟩
    · exact hold (.inl ⟨s, hs, rfl⟩)
    · refine Nat.lt_of_lt_of_le ?_ h.later.serial
      cases hh with
      | stake b hb hi hp he ht ha ho hwire hj hn => exact hn
      | credit b hb ht hv hr he hs u hu huse ha ho hwire hj hn => exact hn
      | job x hx hreq hlt =>
          exact hw.known (.inr (.inr ⟨x, hx.1, (PendingWalletJob.request_fields hreq).1.symm⟩))
  · rcases h.call_origin hc with ⟨c₀, hc₀, hk⟩ | ⟨hnew, -⟩
    · exact hold (.inr (.inl ⟨c₀, hc₀, congrArg (fun t => t.2.2.1) hk⟩))
    · refine Nat.lt_of_lt_of_le ?_ h.later.serial
      cases hnew with
      | first ho hn ha hlt => exact hlt
      | again x hx hcq => exact hw.known (.inr (.inr ⟨x, hx.1, hcq.symm⟩))
  · obtain ⟨n, hn⟩ := List.mem_iff_getElem?.mp hx
    rcases h.job_origin hn with ⟨y, hy, rfl | hs⟩ | ⟨-, hnew⟩
    · exact hold (.inr (.inr ⟨_, List.mem_of_getElem? hy, rfl⟩))
    · exact hold (.inr (.inr ⟨y, List.mem_of_getElem? hy, by rw [hs.later.payload]⟩))
    · exact Nat.lt_of_lt_of_le hnew.serial h.later.serial

/-- **Every action keeps the invariant of the tables.** -/
theorem Sound.move (hw : Sound P w) (h : Move P i k w w') : Sound P w' where
  seedBound := seedBound_move hw h
  seedOwner := seedOwner_move hw h
  roundSeed hr := by
    rcases h.mem_rounds hr with ⟨r, hr, hid⟩ | ⟨hnew, -⟩
    · have hseed := congrArg (fun t => t.2.2.1.serial) hid
      exact hseed ▸ Nat.lt_of_lt_of_le (hw.roundSeed hr) h.later.serial
    · exact Nat.lt_of_lt_of_le hnew.seed h.later.serial
  roundOwner := roundOwner_move hw h
  roundEngine := roundEngine_move hw h
  fair := fair_move hw h
  activeKey := activeKey_move hw h
  activeContext he _ ha := activeContext_move hw h he ha
  betSession hb := by
    rcases h.mem_bets hb with ⟨b, hb, hl, -⟩ | hnew
    · obtain ⟨s, hs⟩ := hw.betSession hb
      obtain ⟨s', hs', -⟩ := h.later.session hs
      exact ⟨s', hl.sessionId ▸ hs'⟩
    · obtain ⟨s, hs⟩ := hnew.session
      obtain ⟨s', hs', -⟩ := h.later.session hs
      exact ⟨s', hs'⟩
  betRound hb := by
    rcases h.mem_bets hb with ⟨b, hb, hl, -⟩ | hnew
    · obtain ⟨r, hr⟩ := hw.betRound hb
      obtain ⟨r', hr', -⟩ := h.later.round hr
      exact ⟨r', hl.roundId ▸ hr'⟩
    · obtain ⟨e, -, r, hr, -⟩ := hw.reaches hnew.reach
      obtain ⟨r', hr', -⟩ := h.later.round hr
      exact ⟨r', hr'⟩
  betOwner := betOwner_move hw h
  betUse hb := by
    rcases h.mem_bets hb with ⟨b, hb, hl, -⟩ | hnew
    · rw [hl.betTransactionUuid]
      exact hw.betUse hb
    · exact hnew.use
  betWin hb u hu := by
    rcases h.mem_bets hb with ⟨b, hb, hl, rfl | hs⟩ | hnew
    · exact hw.betWin hb u hu
    · exact hs.betWin (hw.betWin hb) hu
    · rw [hnew.unpaid] at hu
      cases hu
  betOpen hb ho := by
    rcases h.mem_bets hb with ⟨b, hb, hl, rfl | hs⟩ | hnew
    · exact hw.betOpen hb ho
    · obtain ⟨ho', hwin, hcash⟩ := hs.open ho
      rw [hwin, hcash]
      exact hw.betOpen hb ho'
    · exact ⟨hnew.unpaid, hnew.uncashed⟩
  jobSole := jobSole_move hw h
  jobBet := jobBet_move hw h
  locks hP _ hj hl := locks_move hw h hP hj hl
  known := known_move hw h

/-- **Every outside event keeps the invariant of the tables.** -/
theorem Sound.outer (hw : Sound P w) (h : Outer w w') : Sound P w' where
  seedBound hs := by
    rw [h.serial]
    exact hw.seedBound (h.sessions ▸ hs)
  seedOwner hs := hw.seedOwner (h.sessions ▸ hs)
  roundSeed hr := by
    rw [h.serial]
    exact hw.roundSeed (h.rounds ▸ hr)
  roundOwner hr := hw.roundOwner (h.rounds ▸ hr)
  roundEngine hr := by
    rw [h.sessions]
    exact hw.roundEngine (h.rounds ▸ hr)
  fair hr := hw.fair (h.rounds ▸ hr)
  activeContext he a ha := by
    obtain ⟨engine, he, ha⟩ := h.actives _ he a ha
    rw [h.rounds]
    exact hw.activeContext he a ha
  activeKey hk hid := by
    rcases h.keyed _ hk with hk | hnil
    · rw [h.active] at hid
      obtain ⟨r, hr, hkey⟩ := hw.activeKey hk hid
      exact ⟨r, h.rounds.symm ▸ hr, hkey⟩
    · rw [hnil] at hid
      cases hid
  betSession hb := by
    rw [h.sessions]
    exact hw.betSession (h.bets ▸ hb)
  betRound hb := by
    rw [h.rounds]
    exact hw.betRound (h.bets ▸ hb)
  betOwner hb hb' := hw.betOwner (h.bets ▸ hb) (h.bets ▸ hb')
  betUse hb := hw.betUse (h.bets ▸ hb)
  betWin hb := hw.betWin (h.bets ▸ hb)
  betOpen hb := hw.betOpen (h.bets ▸ hb)
  jobSole hj hj' := hw.jobSole (h.jobs ▸ hj) (h.jobs ▸ hj')
  jobBet hj := by
    obtain ⟨b, ⟨id, hid, hb⟩, hrest⟩ := hw.jobBet (h.jobs ▸ hj)
    exact ⟨b, ⟨id, hid, h.bets.symm ▸ hb⟩, hrest⟩
  locks hP _ hj hl := (hw.locks hP (h.jobs ▸ hj) hl).congr h.wire h.calls
  known hq := by
    rw [h.serial]
    simp only [World.RequestKnown, h.wire, h.calls, h.jobs] at hq
    exact hw.known hq

/-! ## Others keep to what a call relies on -/

theorem pending_rely (hij : i ≠ j) (h : Move P j l w w') {id : Nat} {b : Bet}
    (hb : w.bets[id]? = some b) (ho : b.betTransactionUuid.owner = i) (hp : b.status = .pending) :
    w'.bets[id]? = some b := by
  obtain ⟨b', hb', -⟩ := h.later.bet hb
  rcases h.bet_origin hb' with ⟨b₀, hb₀, hstep⟩ | ⟨rfl, -⟩
  · rw [hb] at hb₀
    obtain rfl := Option.some.inj hb₀
    rcases hstep with rfl | ⟨hs, -⟩
    · exact hb'
    · have hnot : b.status.taken = false := by rw [hp]; rfl
      cases hs with
      | accept hi _ => exact absurd (ho.symm.trans hi) hij
      | reject hi _ => exact absurd (ho.symm.trans hi) hij
      | lose _ _ ht _ => rw [hnot] at ht; cases ht
      | win _ _ _ ht => rw [hnot] at ht; cases ht
      | fail _ ht => rw [hnot] at ht; cases ht
      | cashOut _ _ _ _ _ _ _ ht => rw [hnot] at ht; cases ht
      | void ht _ => rw [hnot] at ht; cases ht
  · simp at hb

theorem requests_rely (hij : i ≠ j) (h : Move P j l w w') {q : Uuid} (ho : q.owner = i)
    (hq : ∀ x ∈ w.jobs, x.payload.requestUuid ≠ q) :
    Untouched q w w' ∧ ∀ x ∈ w'.jobs, x.payload.requestUuid ≠ q := by
  refine ⟨⟨fun s hs hsq => ?_, fun c hc hcq => ?_⟩, fun x hx hxq => ?_⟩
  · rcases h.wire_origin hs with hs | ⟨-, -, hh, -⟩
    · exact hs
    · cases hh with
      | stake b _ _ _ _ _ _ hoj => exact absurd (ho.symm.trans (hsq ▸ hoj)) hij
      | credit b _ _ _ _ _ _ u _ _ _ hoj => exact absurd (ho.symm.trans (hsq ▸ hoj)) hij
      | job x hx hreq _ =>
          exact absurd ((PendingWalletJob.request_fields hreq).1.symm.trans hsq) (hq x hx.1)
  · rcases h.call_origin hc with hc | ⟨hnew, -⟩
    · exact hc
    · cases hnew with
      | first hoj _ _ => exact absurd (ho.symm.trans (hcq ▸ hoj)) hij
      | again x hx hxq => exact absurd (hxq.symm.trans hcq) (hq x hx.1)
  · obtain ⟨n, hn⟩ := List.mem_iff_getElem?.mp hx
    rcases h.job_origin hn with ⟨y, hy, rfl | hs⟩ | ⟨-, hnew⟩
    · exact hq _ (List.mem_of_getElem? hy) hxq
    · exact hq y (List.mem_of_getElem? hy) (hs.later.payload ▸ hxq)
    · exact hij (ho.symm.trans (hxq ▸ hnew.owner))

theorem locks_rely (hij : i ≠ j) (hw : Sound P w) (hpermit : Permit P l w w')
    (h : Move P j l w w') (hP : P.freeLocks) {id : Nat} {x : PendingWalletJob}
    (hx : w.jobs[id]? = some x) (hh : x.lockedUntil.map JobLock.holder = some i) :
    w'.jobs[id]? = some x ∧ Untouched x.payload.requestUuid w w' := by
  have hmem : x ∈ w.jobs := List.mem_of_getElem? hx
  have hne : ¬ x.lockedUntil.map JobLock.holder = some j := by
    rw [hh]
    simpa using hij
  refine ⟨?_, fun s hs hsq => ?_, fun c hc hcq => ?_⟩
  · obtain ⟨x', hx', -⟩ := h.later.job hx
    rcases h.job_origin hx' with ⟨y, hy, hstep⟩ | ⟨rfl, -⟩
    · rw [hx] at hy
      obtain rfl := Option.some.inj hy
      rcases hstep with rfl | hs
      · exact hx'
      · cases hs with
        | lock expiresAt hn hlock =>
            have hchanged : (some ⟨j, expiresAt⟩ : Option JobLock) ≠ x.lockedUntil := by
              intro heq
              rw [← heq] at hne
              exact hne rfl
            have hnone := (hpermit.locked hP hx hx' hchanged rfl).1
            rw [hnone] at hh
            cases hh
        | complete attempts now ha hun => exact absurd (hun hP).holder hne
        | putOff attempts error next hun => exact absurd (hun hP).holder hne
    · simp at hx
  · rcases h.wire_origin hs with hs | ⟨-, -, hnew, -⟩
    · exact hs
    · exact absurd (hw.holder_of_handing hP hmem hnew hsq) hne
  · rcases h.call_origin hc with hc | ⟨hnew, -⟩
    · exact hc
    · exact absurd (hw.holder_of_call hP hmem hnew hcq) hne

/-- A roll leaves a stored outcome as it is, and a round that is over, where engines of one key do
not run together. -/
theorem Draws.kept {r : Round} {outcome : Option GameOutcome} {drawnUnder : Option GameMathConfig}
    (h : Draws P r outcome drawnUnder) (hP : P.oneEngine)
    (ho : r.outcome.isSome = true ∨ r.settled = true) : outcome = r.outcome := by
  cases h with
  | keep => rfl
  | draw plugin config hplugin hn =>
      obtain ⟨hnone, hopen⟩ := hn hP
      rw [hnone, hopen] at ho
      rcases ho with ho | ho <;> cases ho

theorem outcomes_rely (h : Move P j l w w') (hP : P.oneEngine) : w.KeepsOutcomes w' := by
  intro id r hr hfix
  obtain ⟨r', hr', -⟩ := h.later.round hr
  refine ⟨r', hr', ?_⟩
  rcases h.round_origin hr' with ⟨r₀, hr₀, hstep⟩ | ⟨hid, -⟩
  · obtain rfl := Option.some.inj (hr.symm.trans hr₀)
    rcases hstep with rfl | ⟨hs, -⟩
    · rfl
    · cases hs with
      | note => rfl
      | roll _ _ _ _ hd => exact hd.kept hP hfix
      | result _ _ _ _ hd => exact hd.kept hP hfix
      | settle => rfl
      | void => rfl
  · rw [hid, List.getElem?_eq_none (Nat.le_refl _)] at hr
    cases hr

/-- A round that changes in more than its totals is driven by the call that changes it. -/
theorem RoundStep.of_not_drives {id : Nat} {r r' : Round} (h : RoundStep P l w id r r')
    (hl : ¬ l.drives.isSome = true) :
    r'.state = r.state ∧ r'.outcome = r.outcome ∧ r'.settled = r.settled := by
  cases h with
  | note => exact ⟨rfl, rfl, rfl⟩
  | roll _ _ hk _ _ => exact absurd hk hl
  | result _ _ _ hk _ => exact absurd hk hl
  | settle _ _ hk _ => exact absurd hk hl
  | void _ hk => exact absurd hk hl

theorem loop_rely (hw : Sound P w) (hpermit : Permit P l w w') (h : Move P j l w w')
    {e : EngineRef} {polls : Nat} (hc : Compat P (.iteration e polls) l) (hP : P.oneEngine) :
    LoopRely P e w w' where
  rounds hr hk := by
    rcases h.round_origin hr with ⟨r, hr₀, rfl | ⟨hs, hreach⟩⟩ | ⟨-, hnew⟩
    · exact ⟨_, hr₀, rfl, rfl, rfl⟩
    · obtain ⟨e', he', r₀, hr₀', hk'⟩ := hw.reaches hreach
      rw [hr₀] at hr₀'
      obtain rfl := Option.some.inj hr₀'
      have hkey : e.key = e'.key := by rw [← hk, hs.later.key, hk']
      obtain ⟨-, hd⟩ := hc hP e e' rfl he' hkey
      obtain ⟨hst, hout, hset⟩ := hs.of_not_drives fun hl => hd ⟨rfl, hl⟩
      exact ⟨r, hr₀, hst, hout, hset⟩
    · obtain ⟨e', polls', rfl, hk'⟩ := hnew.loop
      obtain ⟨-, hd⟩ := hc hP e e' rfl rfl (by rw [← hk, hk'])
      exact absurd ⟨rfl, rfl⟩ hd
  accepted hT id b' hb' hacc r hr hk ht := by
    rcases h.bet_origin hb' with ⟨b, hb, -⟩ | ⟨-, hnew⟩
    · rcases hpermit.accepted hT hb hb' hacc with ha | ⟨r', hr', ht'⟩
      · exact ⟨b, hb, ha⟩
      · obtain ⟨b'', hb'', hl⟩ := h.later.bet hb
        rw [hb'] at hb''
        obtain rfl := Option.some.inj hb''
        rw [hl.roundId, hr'] at hr
        obtain rfl := Option.some.inj hr
        rw [ht] at ht'
        cases ht'
    · rw [hnew.status] at hacc
      cases hacc
  active hkeyed := h.activeIds_eq fun e' polls' hl hk' hidx =>
    (hc hP e e' rfl (by rw [hl]; rfl) (hkeyed.unique hk' hidx.symm)).2 ⟨rfl, by rw [hl]; rfl⟩
  seeded hr s hs hid := by
    rcases h.round_origin hr with ⟨r, hr, -⟩ | ⟨-, hnew⟩
    · exact ⟨r, hr⟩
    · -- a new round is of the engine whose session its seed was drawn for
      obtain ⟨e', polls', rfl, hk'⟩ := hnew.loop
      obtain ⟨s', hs', ho, hp⟩ := hnew.engine
      rw [hnew.session, hs'] at hs
      obtain rfl := Option.some.inj hs
      have hkey : e.key = e'.key := by
        rw [← hk']
        simp only [GameSession.identity, ho, hp, Prod.mk.injEq, PlayerRef.engine.injEq] at hid
        simp only [Round.key, hid]
      exact absurd ⟨rfl, rfl⟩ (hc hP e e' rfl rfl hkey).2

/-- While an engine starts, no other call reaches a round of its key. -/
theorem not_reaches_of_unused (hw : Sound P w) {e : EngineRef} (hc : Compat P (.start e) l)
    (hP : P.oneEngine) (hun : w.Unused e) {id : Nat} (hr : w.Reaches l id) :
    ¬ w.RoundOf id e.key := by
  rintro ⟨r, hr₀, hk⟩
  obtain ⟨e', he', r', hr', hk'⟩ := hw.reaches hr
  rw [hr₀] at hr'
  obtain rfl := Option.some.inj hr'
  obtain ⟨rfl, hd⟩ := hc hP e e' rfl he' (by rw [← hk, hk'])
  cases l with
  | start e'' => exact hd ⟨rfl, rfl⟩
  | iteration e'' polls => exact hd ⟨rfl, rfl⟩
  | placeBet e'' params =>
      obtain rfl := Option.some.inj he'
      have hid := hr.2
      rw [hun.2] at hid
      cases hid
  | cashOut e'' params =>
      obtain rfl := Option.some.inj he'
      have hid := hr.2
      rw [hun.2] at hid
      cases hid
  | _ => exact hr.elim

theorem resume_rely (hw : Sound P w) (h : Move P j l w w') {e : EngineRef}
    (hc : Compat P (.start e) l) (hP : P.oneEngine) (hun : w.Unused e) : ResumeRely e w w' where
  unused := by
    refine ⟨h.later.keyed hun.1, List.eq_nil_iff_forall_not_mem.mpr fun id hid => ?_⟩
    rcases h.active_origin hid with hid | ⟨e', polls, rfl, hidx, hk', -⟩
    · rw [hun.2] at hid
      cases hid
    · exact (hc hP e e' rfl rfl (hun.1.unique hk' hidx.symm)).2 ⟨rfl, rfl⟩
  rounds {id r'} hr hk := by
    rcases h.round_origin hr with ⟨r, hr₀, rfl | ⟨hs, hreach⟩⟩ | ⟨-, hnew⟩
    · exact hr₀
    · exact absurd ⟨r, hr₀, hs.later.key.symm.trans hk⟩
        (not_reaches_of_unused hw hc hP hun hreach)
    · obtain ⟨e', polls', rfl, hk'⟩ := hnew.loop
      exact absurd ⟨rfl, rfl⟩ (hc hP e e' rfl rfl (by rw [← hk, hk'])).2
  bets {id b'} hb hround := by
    have hback : ∀ {rid : Nat}, w'.RoundOf rid e.key → (∃ r, w.rounds[rid]? = some r) →
        w.RoundOf rid e.key := by
      rintro rid ⟨r', hr', hk'⟩ ⟨r, hr⟩
      obtain ⟨r'', hr'', hl⟩ := h.later.round hr
      rw [hr'] at hr''
      obtain rfl := Option.some.inj hr''
      exact ⟨r, hr, hl.key.symm.trans hk'⟩
    rcases h.bet_origin hb with ⟨b, hb₀, rfl | ⟨hs, hreach⟩⟩ | ⟨-, hnew⟩
    · exact hb₀
    · have hr := hback (hs.later.roundId ▸ hround) (hw.betRound (List.mem_of_getElem? hb₀))
      exact absurd hr (not_reaches_of_unused hw hc hP hun hreach)
    · obtain ⟨e', -, r, hr, -⟩ := hw.reaches hnew.reach
      exact absurd (hback hround ⟨r, hr⟩) (not_reaches_of_unused hw hc hP hun hnew.reach)
  handed {id b u} hb hround hu := by
    have hnot : ∀ b₁ ∈ w.bets, w.Reaches l b₁.roundId →
        b₁.betTransactionUuid = b.betTransactionUuid → False := by
      intro b₁ hb₁ hreach he
      obtain ⟨n, hn⟩ := List.mem_iff_getElem?.mp hb₁
      obtain rfl := hw.betOwner hn hb (congrArg Uuid.owner he)
      rw [hb] at hn
      obtain rfl := Option.some.inj hn
      exact not_reaches_of_unused hw hc hP hun hreach hround
    rcases hu with ⟨s, hs, he, href, htx⟩ | ⟨x, hx, he, href, htx⟩
    · rcases h.wire_origin hs with hs | ⟨-, -, hh, -⟩
      · exact .inl ⟨s, hs, he, href, htx⟩
      · cases hh with
        | stake b₁ _ _ _ he' => rw [he] at he'; cases he'
        | credit b₁ hb₁ _ _ hreach _ hs₁ =>
            rw [href] at hs₁
            exact (hnot b₁ hb₁ hreach (Option.some.inj hs₁).symm).elim
        | job x hx hreq _ =>
            obtain ⟨-, hend, hrest⟩ := PendingWalletJob.request_fields hreq
            obtain ⟨hr₁, ht₁⟩ := hrest (.inl (hend.symm.trans he))
            refine .inr ⟨x, hx.1, hend.symm.trans he, hr₁.symm.trans href, ?_⟩
            rw [htx] at ht₁
            exact (Option.some.inj ht₁).symm
    · obtain ⟨n, hn⟩ := List.mem_iff_getElem?.mp hx
      rcases h.job_origin hn with ⟨y, hy, rfl | hs⟩ | ⟨-, hnew⟩
      · exact .inr ⟨_, List.mem_of_getElem? hy, he, href, htx⟩
      · have hend : x.endpoint = y.endpoint := congrArg (fun t => t.2.1) hs.later.identity
        exact .inr ⟨y, List.mem_of_getElem? hy, hend ▸ he, hs.later.payload ▸ href,
          hs.later.payload ▸ htx⟩
      · obtain ⟨m, b₁, -, hb₁, href₁, hreach, -⟩ := hnew.bet
        rw [href] at href₁
        exact (hnot b₁ (List.mem_of_getElem? hb₁) hreach (Option.some.inj href₁).symm).elim
  jobs {id b endpoint} hb hround hj := by
    obtain ⟨x, hx, he, hid⟩ := hj
    obtain ⟨n, hn⟩ := List.mem_iff_getElem?.mp hx
    rcases h.job_origin hn with ⟨y, hy, rfl | hs⟩ | ⟨-, hnew⟩
    · exact ⟨_, List.mem_of_getElem? hy, he, hid⟩
    · have hend : x.endpoint = y.endpoint := congrArg (fun t => t.2.1) hs.later.identity
      have hbet : x.betId = y.betId := congrArg (fun t => t.2.2.1) hs.later.identity
      exact ⟨y, List.mem_of_getElem? hy, hend ▸ he, hbet ▸ hid⟩
    · obtain ⟨m, b₁, hm, hb₁, -, hreach, -⟩ := hnew.bet
      obtain rfl := Option.some.inj (hm.symm.trans hid)
      obtain rfl := Option.some.inj (hb₁.symm.trans hb)
      exact absurd hround (not_reaches_of_unused hw hc hP hun hreach)

/-- The bets that a call holds are voided by no other call. -/
theorem held_rely (hc : Compat P k l) (hw : Sound P w) (h : Move P j l w w') (hP : P.oneEngine) :
    w.KeepsBets k w' := by
  intro id b b' hb hh hv hb'
  rcases h.bet_origin hb' with ⟨b₀, hb₀, rfl | ⟨hs, hreach⟩⟩ | ⟨rfl, -⟩
  · exact Option.some.inj (hb.symm.trans hb₀) ▸ hv
  · obtain rfl := Option.some.inj (hb.symm.trans hb₀)
    intro hvoided
    obtain ⟨e, rfl, hunused⟩ := hs.voided hvoided
    obtain ⟨r, hr, hkey⟩ := hreach
    -- the engine that starts would be the one that holds the round
    have hnot : ∀ e', k.engine? = some e' → w.Keyed e' → b.roundId ∈ w.activeIds e' → False := by
      intro e' he' hkeyed hid
      obtain ⟨r', hr', hkey'⟩ := hw.activeKey hkeyed hid
      obtain rfl := Option.some.inj (hr.symm.trans hr')
      obtain ⟨rfl, -⟩ := hc hP e' e he' rfl (hkey'.symm.trans hkey)
      rw [hunused hP] at hid
      cases hid
    cases k with
    | iteration e' polls => exact hnot e' rfl hh.1 hh.2
    | cashOut e' p => exact hnot e' rfl hh.1 hh.2
    | _ => exact hh
  · simp at hb

/-- **An action of another call does only what a call relies on.** -/
theorem Move.rely (hij : i ≠ j) (hc : Compat P k l) (hw : Sound P w) (hpermit : Permit P l w w')
    (h : Move P j l w w') : Rely P i k w w' where
  later := h.later
  outcomes hP := outcomes_rely h hP
  stakes hb ho := by
    rcases h.bet_origin hb with ⟨b, hb, -⟩ | ⟨-, hnew⟩
    · exact ⟨b, hb⟩
    · exact absurd (ho.symm.trans hnew.owner) hij
  pending := pending_rely hij h
  requests := requests_rely hij h
  locks hP _ _ := locks_rely hij hw hpermit h hP
  loop hP e polls he := loop_rely hw hpermit h (he ▸ hc) hP
  resume hP e he hun := resume_rely hw h (he ▸ hc) hP hun
  configs _ _ := by rw [World.storedConfigs, World.storedConfigs, h.gameConfigs_eq]
  held hP := held_rely hc hw h hP

/-- **An outside event does only what a call relies on.** -/
theorem Outer.rely (h : Outer w w') (hl : Later w w')
    (hconfigs : P.agreeing → k.shows = true → w'.storedConfigs = w.storedConfigs) :
    Rely P i k w w' := by
  have hwire : ∀ q, Untouched q w w' := fun q =>
    ⟨fun s hs _ => h.wire ▸ hs, fun c hc _ => ⟨c, h.calls ▸ hc, rfl⟩⟩
  refine ⟨hl, fun _ => .of_eq h.rounds, fun hb _ => ⟨_, h.bets ▸ hb⟩, fun hb _ _ => h.bets.symm ▸ hb,
    fun _ hj => ⟨hwire _, h.jobs.symm ▸ hj⟩, fun _ _ _ hj _ => ⟨h.jobs.symm ▸ hj, hwire _⟩,
    fun _ e _ _ => ⟨fun hr _ => ⟨_, h.rounds ▸ hr, rfl, rfl, rfl⟩,
      fun _ _ _ hb ha _ _ _ _ => ⟨_, h.bets ▸ hb, ha⟩, fun _ => h.active e,
      fun hr _ _ _ => ⟨_, h.rounds ▸ hr⟩⟩, fun _ e _ hun => ?_, hconfigs, fun _ => .of_eq h.bets⟩
  refine ⟨⟨hl.keyed hun.1, (h.active e).trans hun.2⟩, fun hr _ => h.rounds ▸ hr,
    fun hb _ => h.bets ▸ hb, fun _ _ hu => ?_, fun _ _ ⟨x, hx, hrest⟩ => ⟨x, h.jobs ▸ hx, hrest⟩⟩
  rcases hu with ⟨s, hs, hrest⟩ | ⟨x, hx, hrest⟩
  · exact .inl ⟨s, h.wire ▸ hs, hrest⟩
  · exact .inr ⟨x, h.jobs ▸ hx, hrest⟩

end YantraRgs
