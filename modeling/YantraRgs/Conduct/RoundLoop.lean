import YantraRgs.Conduct.Settle

/-! # The round loop keeps to the rules

A turn of the loop creates a round under the next nonce of the engine's session, makes it active,
rolls it and settles it.

* **`World.CountedUp`** — the nonces of an engine's rounds were counted up.
* **`Drawn`** — what a turn knows about the session it creates a round under.
* **`iteration_go`** — one turn of the loop. -/

namespace YantraRgs

open Await

variable {P : Policy} {i : Nat} {w w' : World} {env : Env} {e : EngineRef} {polls : Nat}
variable {plugin : GamePlugin}

/-! ## Creating a round -/

/-- What an engine's session is known by. -/
def EngineKey.session (key : EngineKey) : OperatorId × PlayerRef :=
  (key.operatorId, .engine key.gameCode key.currency)

/-- The nonces of an engine's rounds were counted up: every round under the seed of one of its
sessions has a smaller nonce than the session. -/
def World.CountedUp (w : World) (key : EngineKey) : Prop :=
  ∀ (id : Nat) (s : GameSession), w.sessions[id]? = some s → s.identity = key.session →
    ∀ r ∈ w.rounds, r.serverSeed = s.serverSeed → r.nonce < s.nonce

/-- **What a turn knows about the session it read** for its round. -/
structure Drawn (P : Policy) (e : EngineRef) (session : Nat × GameSession) (w : World) : Prop where
  clear : Clear P e w
  seed : session.2.serverSeed.serial < w.serial
  owner : session.2.serverSeed.session = session.1
  engine : ∃ s, w.sessions[session.1]? = some s ∧ s.identity = e.key.session
  counted : P.oneEngine → P.countedUp → ∀ r ∈ w.rounds, r.serverSeed = session.2.serverSeed →
    r.nonce < session.2.nonce

theorem drawn_stable {session : Nat × GameSession} :
    Stable P i (.iteration e polls) (Drawn P e session) := by
  intro w w' hr h
  obtain ⟨s, hs, hid⟩ := h.engine
  obtain ⟨s', hs', hid'⟩ := hr.later.session hs
  refine ⟨clear_stable hr h.clear, Nat.lt_of_lt_of_le h.seed hr.later.serial, h.owner,
    ⟨s', hs', hid'.trans hid⟩, fun hP hC r' hr' hseed => ?_⟩
  obtain ⟨n, hn⟩ := List.mem_iff_getElem?.mp hr'
  obtain ⟨r, hrow⟩ := (hr.loop hP e polls rfl).seeded hn s (by rw [hseed, h.owner, hs]) hid
  obtain ⟨r'', hr'', hl⟩ := hr.later.round hrow
  rw [hn] at hr''
  obtain rfl := Option.some.inj hr''
  rw [show r'.nonce = r.nonce from congrArg (fun t => t.2.2.2.2) hl.identity]
  refine h.counted hP hC r (List.mem_of_getElem? hrow) ?_
  rw [← hseed]
  exact (congrArg (fun t => t.2.2.1) hl.identity).symm

/-- A session of the engine that was found live. -/
theorem drawn_of_read {id : Nat} {s : GameSession} (hs : Sound P w) (hs' : Sound P w')
    (hr : Rely P i (.iteration e polls) w w') (hclear : Clear P e w)
    (hcounted : P.oneEngine → P.countedUp → w.CountedUp e.key) (hrow : w'.sessions[id]? = some s)
    (hid : s.identity = e.key.session) : Drawn P e (id, s) w' := by
  refine ⟨clear_stable hr hclear, hs'.seedBound hrow, hs'.seedOwner hrow, ⟨s, hrow, hid⟩,
    fun hP hC r' hr' hseed => ?_⟩
  -- the round is of the engine's key, and so it was there when the turn began
  obtain ⟨t, ht, ho, hp⟩ := hs'.roundEngine hr'
  rw [← hs'.roundOwner hr', hseed, hs'.seedOwner hrow, hrow] at ht
  obtain rfl := Option.some.inj ht
  have hkey : r'.key = e.key := by
    simp only [GameSession.identity, EngineKey.session, ho, hp, Prod.mk.injEq,
      PlayerRef.engine.injEq] at hid
    simp only [Round.key, hid]
  obtain ⟨n, hn⟩ := List.mem_iff_getElem?.mp hr'
  obtain ⟨r, hr₀, -, -⟩ := (hr.loop hP e polls rfl).rounds hn hkey
  obtain ⟨r'', hr'', hl⟩ := hr.later.round hr₀
  rw [hn] at hr''
  obtain rfl := Option.some.inj hr''
  have hseed₀ : r.serverSeed = s.serverSeed := by
    rw [← hseed]
    exact (congrArg (fun t => t.2.2.1) hl.identity).symm
  rw [show r'.nonce = r.nonce from congrArg (fun t => t.2.2.2.2) hl.identity]
  have hmem : r ∈ w.rounds := List.mem_of_getElem? hr₀
  rcases hr.later.seeds hrow with ⟨s₀, hs₀, hsame, hle⟩ | hnew
  · obtain ⟨s', hs', hid'⟩ := hr.later.session hs₀
    rw [hrow] at hs'
    obtain rfl := Option.some.inj hs'
    exact Nat.lt_of_lt_of_le (hcounted hP hC id s₀ hs₀ (hid'.symm.trans hid) r hmem
      (hseed₀.trans hsame.symm)) hle
  · -- a seed drawn since then has no round
    have hbound := hs.roundSeed hmem
    rw [hseed₀] at hbound
    omega

/-- Reading the session of the engine, or making a new one. -/
theorem getOrCreateEngineSession_go (hs : Sound P w) (hclear : Clear P e w)
    (hcounted : P.oneEngine → P.countedUp → w.CountedUp e.key) :
    Walk P i (.iteration e polls) (GameEngine.getOrCreateEngineSession e)
      (fun session w' => Drawn P e session w') w := by
  have hfind : Walk P i (.iteration e polls) (Action.findFirst World.sessions fun s =>
      s.operatorId = e.key.operatorId ∧ s.playerRef = GameEngine.playerRef e ∧
        s.terminatedAt = none)
      (fun existing w' => Clear P e w' ∧ ∀ session, existing = some session →
        Drawn P e session w') w := by
    refine findFirst_reads (fun w => .idle (.refl w)) fun w₁ hr hs₁ => ?_
    have hclear₁ := clear_stable hr hclear
    refine ⟨⟨hclear₁, fun _ he => by cases he⟩, fun id s hrow hp => ⟨hclear₁, fun session he => ?_⟩⟩
    obtain rfl := Option.some.inj he
    simp only [decide_eq_true_eq] at hp
    exact drawn_of_read hs hs₁ hr hclear hcounted hrow (by
      simp only [GameSession.identity, EngineKey.session, hp.1, hp.2.1, GameEngine.playerRef])
  refine Go.bind_iff.mpr (hfind.mono fun existing w hR => ?_)
  have hstable : Stable P i (.iteration e polls) fun w => Clear P e w ∧
      ∀ session, existing = some session → Drawn P e session w :=
    fun w w' hr h =>
      ⟨clear_stable hr h.1, fun session he => drawn_stable hr (h.2 session he)⟩
  refine Walk.idle_bind Idle.now hR hstable fun now w hR => ?_
  split
  · rename_i session hsession
    exact hR.2 session (Option.filter_eq_some_iff.mp hsession).1
  · refine Go.request fun w₁ hr hs₁ _ => ?_
    have hclear₁ := clear_stable hr hR.1
    refine ⟨.addSession _ rfl, fun _ => ⟨⟨hclear₁.keyed, hclear₁.settled⟩, ?_, rfl,
      ⟨_, Table.getElem?_concat_length _ _, rfl⟩, fun _ _ r hr₁ hseed => ?_⟩⟩
    · exact Nat.lt_add_of_pos_right (by decide)
    · -- no round has a seed that was drawn just now
      have hbound := hs₁.roundSeed hr₁
      rw [hseed] at hbound
      exact absurd hbound (Nat.lt_irrefl _)

/-- How far a round has come: whether its outcome was drawn, and whether it is settled. -/
def Round.progress (r : Round) : Option GameOutcome × Bool := (r.outcome, r.settled)

/-- A round of the engine was created, as the given row, and nobody rolled it; the other rounds of
the engine are settled. -/
structure Created (P : Policy) (e : EngineRef) (created : Nat × Round) (w : World) : Prop where
  keyed : w.Keyed e
  row : ∃ r, w.rounds[created.1]? = some r ∧ r.key = e.key ∧
    r.rngContext = created.2.rngContext ∧ (P.oneEngine → r.progress = (none, false))
  others : P.oneEngine → P.closed → w.OthersSettled e.key created.1

/-- The rounds stay where they are. -/
def SameProgress (w w' : World) : Prop :=
  w'.rounds.map Round.progress = w.rounds.map Round.progress

theorem SameProgress.refl (w : World) : SameProgress w w := rfl

theorem SameProgress.round (h : SameProgress w w') {id : Nat} {r' : Round}
    (hr' : w'.rounds[id]? = some r') : ∃ r, w.rounds[id]? = some r ∧ r'.progress = r.progress := by
  have hid := congrArg (fun rounds => rounds[id]?) h
  simp only [List.getElem?_map, hr', Option.map_some] at hid
  obtain ⟨r, hr, he⟩ := Option.map_eq_some_iff.mp hid.symm
  exact ⟨r, hr, he.symm⟩

/-- The other rounds stay settled where the rounds stay where they are. -/
theorem World.OthersSettled.same {key : EngineKey} {id : Nat} (h : w.OthersSettled key id)
    (hl : Later w w') (hs : SameProgress w w') : w'.OthersSettled key id := by
  intro n r' hr' hk hn
  obtain ⟨r, hr, hp⟩ := hs.round hr'
  obtain ⟨r₀, hr₀, hrl⟩ := hl.round hr
  obtain rfl := Option.some.inj (hr'.symm.trans hr₀)
  exact (congrArg Prod.snd hp).trans (h n r hr (hrl.key.symm.trans hk) hn)

/-- A step of the call itself that leaves the rounds where they are. -/
theorem Created.next {created : Nat × Round} (h : Created P e created w) (hl : Later w w')
    (hs : SameProgress w w') : Created P e created w' := by
  obtain ⟨r, hr, hk, hctx, hout⟩ := h.row
  obtain ⟨r', hr', hrl⟩ := hl.round hr
  obtain ⟨r₀, hr₀, hp⟩ := hs.round hr'
  obtain rfl := Option.some.inj (hr.symm.trans hr₀)
  exact ⟨hl.keyed h.keyed, ⟨r', hr', hrl.key.trans hk, hrl.rngContext.trans hctx,
    fun hP => hp.trans (hout hP)⟩, fun hP hC => (h.others hP hC).same hl hs⟩

/-- Nobody else moves the rounds of the engine on. -/
theorem LoopRely.progress (h : LoopRely P e w w') {id : Nat} {r r' : Round}
    (hr : w.rounds[id]? = some r) (hr' : w'.rounds[id]? = some r') (hk : r'.key = e.key) :
    r'.progress = r.progress := by
  obtain ⟨r₀, hr₀, -, ho, hs⟩ := h.rounds hr' hk
  obtain rfl := Option.some.inj (hr.symm.trans hr₀)
  simp only [Round.progress, ho, hs]

theorem created_stable {created : Nat × Round} :
    Stable P i (.iteration e polls) (Created P e created) := by
  intro w w' hr h
  obtain ⟨r, hrow, hk, hctx, hout⟩ := h.row
  obtain ⟨r', hrow', hrl⟩ := hr.later.round hrow
  have hk' : r'.key = e.key := hrl.key.trans hk
  refine ⟨hr.later.keyed h.keyed, ⟨r', hrow', hk', hrl.rngContext.trans hctx, fun hP => ?_⟩,
    fun hP hC => (hr.loop hP e polls rfl).othersSettled hr.later (h.others hP hC)⟩
  exact ((hr.loop hP e polls rfl).progress hrow hrow' hk').trans (hout hP)

/-- Chaining the row of a round leaves it where it is. -/
theorem SameProgress.chainRound (id : Nat) (round : Round) :
    (GameEngine.chainRound env e id round).Keeps SameProgress := by
  refine Prog.Keeps.bind (Prog.Keeps.query SameProgress.refl _) fun prevRowHash => ?_
  refine Prog.Keeps.modify fun w => ?_
  exact Table.map_modify_of_eq (g := Round.progress) (by intro r; rfl) w.rounds id

/-- **Creating a round.** -/
theorem createRound_go (hs : Sound P w) (hclear : Clear P e w)
    (hcounted : P.oneEngine → P.countedUp → w.CountedUp e.key) :
    Walk P i (.iteration e polls) (GameEngine.createRound env e plugin)
      (fun created w' => Created P e created w') w := by
  refine Go.bind_iff.mpr ((getOrCreateEngineSession_go hs hclear hcounted).mono
    fun session w hdrawn => ?_)
  have hadd : Walk P i (.iteration e polls) (Prog.request fun _ w =>
      let engine := w.engine? e
      let configVersion := (engine.map fun engine => engine.cfg.configVersion).getD 0
      let round := GameEngine.newRound env e plugin session configVersion
        (engine.map Engine.gameConfig) w.now
      ((w.rounds.length, round), w.addRound round))
      (fun created w' => Created P e created w') w := by
    refine Go.request fun w₁ hr hs₁ _ => ?_
    have h := drawn_stable hr hdrawn
    obtain ⟨s, hrow, hid⟩ := h.engine
    refine ⟨.addRound _ ⟨⟨e, polls, rfl, rfl⟩, rfl, rfl, rfl, h.seed, h.owner,
      ⟨s, hrow, congrArg Prod.fst hid, congrArg Prod.snd hid⟩, h.counted, h.clear.settled⟩,
      fun _ => ⟨h.clear.keyed, ⟨_, Table.getElem?_concat_length _ _, rfl, rfl, fun _ => rfl⟩,
        fun hP hC n r hn hk hne => ?_⟩⟩
    rcases Table.getElem?_concat_cases hn with hn | ⟨rfl, -⟩
    · exact h.clear.settled hP hC r (List.mem_of_getElem? hn) hk
    · exact absurd rfl hne
  refine Go.bind_iff.mpr (hadd.mono fun created w hR => ?_)
  obtain ⟨id, round⟩ := created
  have hchain : Walk P i (.iteration e polls) (GameEngine.chainRound env e id round)
      (fun _ _ => True) w := by
    refine Walk.idle_bind (Prog.Keeps.query Same.refl _) hR created_stable fun tip w hR => ?_
    refine Go.modify fun w₁ hr _ _ => ⟨?_, fun _ => trivial⟩
    obtain ⟨r, hrow, hkey, -⟩ := (created_stable hr hR).row
    exact updateRound_move _ ⟨r, hrow, hkey⟩ fun r _ => .note r r.totalBetsMicro _ _
  have hcatching := Go.catching (· = .fail) (R := fun _ => True) hchain trivial (fun _ h => h)
    (fun _ h => h) fun _ => .idle (.refl _)
  refine Go.bind_iff.mpr ((Go.carry hcatching (Prog.Keeps.catching SameProgress.refl _
    (SameProgress.chainRound id round)) hR (fun hr h => created_stable hr h)
    fun hg hs h => h.next hg.later hs).mono fun o w ⟨_, hR⟩ => ?_)
  refine Go.bind_iff.mpr (Go.modify fun w₁ hr _ _ => ?_)
  have hmove := updateSession_move (P := P) (i := i) (k := .iteration e polls) (w := w₁)
    session.1 (f := fun s => { s with nonce := s.nonce + 1 }) fun s _ => ⟨.countUp s, rfl⟩
  exact ⟨hmove, fun _ => (created_stable hr hR).next hmove.later rfl⟩

/-- The last round that the engine made active was not rolled, and the other rounds of the engine are
settled, as far as the policy knows. -/
structure Opened (P : Policy) (e : EngineRef) (w : World) : Prop where
  keyed : w.Keyed e
  unrolled : P.oneEngine → ∃ id r, (w.activeIds e).getLast? = some id ∧ w.rounds[id]? = some r ∧
    r.key = e.key ∧ r.progress = (none, false) ∧ (P.closed → w.OthersSettled e.key id)

theorem opened_stable : Stable P i (.iteration e polls) (Opened P e) := by
  intro w w' hr h
  refine ⟨hr.later.keyed h.keyed, fun hP => ?_⟩
  have hloop := hr.loop hP e polls rfl
  obtain ⟨id, r, hlast, hrow, hk, hp, hothers⟩ := h.unrolled hP
  obtain ⟨r', hrow', hrl⟩ := hr.later.round hrow
  have hk' : r'.key = e.key := hrl.key.trans hk
  exact ⟨id, r', by rw [hloop.active h.keyed, hlast], hrow', hk',
    (hloop.progress hrow hrow' hk').trans hp, fun hC => hloop.othersSettled hr.later (hothers hC)⟩

/-- **Opening betting in a new round.** -/
theorem openBetting_go (hs : Sound P w) (hclear : Clear P e w)
    (hcounted : P.oneEngine → P.countedUp → w.CountedUp e.key) :
    Walk P i (.iteration e polls) (GameEngine.openBetting env e plugin)
      (fun _ w' => Opened P e w') w := by
  refine Go.bind_iff.mpr ((createRound_go hs hclear hcounted).mono fun created w hR => ?_)
  obtain ⟨id, round⟩ := created
  refine Go.bind_iff.mpr (Go.mono (Q := fun _ w' => Opened P e w')
    (Go.request fun w₁ hr _ _ => ?_) fun windowMs w h => ?_)
  · have hcreated := created_stable hr hR
    obtain ⟨r, hrow, hkey, hctx, hout⟩ := hcreated.row
    have hmove : Move P i (.iteration e polls) w₁ _ :=
      .activate e polls rfl ⟨id, round.nonce, round.serverSeed, round.serverSeedHash,
        round.clientSeed, .bettingOpen, w₁.now,
        ((w₁.engine? e).map fun engine => engine.cfg.bettingWindowMs).getD 0, none, none⟩
        hcreated.keyed ⟨r, hrow, hkey, hctx⟩
    refine ⟨hmove, fun _ => ⟨hmove.later.keyed hcreated.keyed, fun hP =>
      ⟨id, r, ?_, hrow, hkey, hout hP, hcreated.others hP⟩⟩⟩
    obtain ⟨engine, he, -⟩ := hcreated.keyed
    simp [World.activeIds, engine?_updateEngine, he]
  · exact Walk.idle (Prog.Keeps.bind (Idle.engineEmit _ _) fun _ => Idle.wait _ _) h opened_stable

end YantraRgs
