import YantraRgs.Await.Trace
import YantraRgs.Conduct.Seeds
import YantraRgs.Properties.Runs

/-! # Seeds are secret until their last use

The engine makes all its rounds under the seed of one session, and a proof, a replay or a dispute pack
shows the seed of a round as soon as that round is over. So a seed is known while other rounds under it
are played, unless the session got a new one.

* **`SeedsSecret`** — the property.
* **`AskedAfterUse`** — the condition on the steps of a run.
* **`seeds_secret`** — the property along every run that meets the condition. -/

namespace YantraRgs

open Await

/-- What is left of a call makes no round. -/
def RoundMade (t : Task World Choice Call) : Prop :=
  t.prog.Keeps fun w w' => w'.rounds.length = w.rounds.length

/-- **A server seed that was told is not used any more**, in a run that went through the states `past` to
the state `p`: every round under it is settled, and no round was made under it since. -/
structure SeedsSecret (past : List State) (p : State) : Prop where
  settled : ∀ r ∈ p.world.rounds, p.world.Disclosed r.serverSeed → r.settled = true
  unused : ∀ s ∈ past, ∀ (n : Nat) (r : Round), p.world.rounds[n]? = some r →
    s.world.rounds.length ≤ n → ¬ s.world.Disclosed r.serverSeed

/-- **The condition on a step**: a request asks for the seed of a session only when every round of the
session is settled, and no turn of its engine's loop has yet to make its round; a turn begins only when
the seeds that it may use were not told; and a dispute pack finds its bet by the same transaction. -/
structure AskedAfterUse (p : State) (x : Happening) (q : State) : Prop where
  settled : ∀ i ∈ ran? x, ∀ t ∈ p.tasks[i]?, ∀ r ∈ p.world.rounds,
    p.world.Asks t.call r.sessionId → r.settled = true
  made : ∀ i ∈ ran? x, ∀ t ∈ p.tasks[i]?, ∀ id, p.world.Asks t.call id → ∀ u ∈ p.tasks, u.live →
    ∀ e polls, u.call = .iteration e polls → p.world.EngineSession e.key id → RoundMade u
  unspent : ∀ e polls, x = .call (.iteration e polls) → p.world.Unspent e.key
  found : ∀ t ∈ p.tasks, t.live → KeptTransactions t.call p.world q.world

section Runs

variable {env : Env} {p q : State} {x : Happening} {past : List State} {i : Nat} {k : Call}
  {w w' : World}

theorem askedAfterUse_meets (env : Env) : Meets (.free env) AskedAfterUse where
  permit _ _ := .of_free id id id id
  engines h := h.elim
  countedUp h := h.elim
  fit _ := ⟨fun h => h.elim, fun h => h.elim⟩
  closed h := h.elim
  crashes h := h.elim
  configs h := h.elim
  verifies h := h.elim
  focus _ _ h := nomatch h

/-- A turn of the loop that has yet to make its round. -/
def RoundToMake (t : Task World Choice Call) : Prop :=
  (∃ e polls, t.call = .iteration e polls) ∧ ¬ RoundMade t

/-- **The invariant behind the property**: the seeds that were told were drawn before, the rounds that
are over are settled, and every call goes on by its rules. -/
structure Guarded (env : Env) (past : List State) (p : State) : Prop where
  bound : p.world.DisclosedBound
  ended : p.world.OverSettled
  telling : Watched (seedRules env) (fun _ => True) p
  turning : Attended (turnRules env) RoundToMake p
  kept : ∀ s ∈ past, ∀ seed, s.world.Disclosed seed → p.world.Disclosed seed
  secret : SeedsSecret past p

theorem Guarded.initial (operators : List OperatorRow) (credentials : List OperatorCredential)
    (gameConfigs : List OperatorGameConfig) :
    Guarded env [] (State.initial operators credentials gameConfigs) where
  bound seed h := by
    obtain ⟨x, hx, -⟩ := h
    cases hx
  ended _ hr := nomatch hr
  telling _ _ ht := nomatch ht
  turning _ _ ht := nomatch ht
  kept _ hs := nomatch hs
  secret := ⟨fun _ hr => (nomatch hr), fun _ hs => (nomatch hs)⟩

/-! ## What one step does -/

theorem Move.overSettled (h : Move (.free env) i k w w') (hw : w.OverSettled) : w'.OverSettled := by
  intro r' hr' hterminal
  obtain ⟨n, hn⟩ := List.mem_iff_getElem?.mp hr'
  rcases h.round_origin hn with ⟨r, hr, rfl | ⟨hstep, -⟩⟩ | ⟨-, hnew⟩
  · exact hw _ (List.mem_of_getElem? hr) hterminal
  · cases hstep with
    | note => exact hw r (List.mem_of_getElem? hr) hterminal
    | roll | result => cases hterminal
    | settle | void => rfl
  · rw [hnew.state] at hterminal
    cases hterminal

theorem Stepped.overSettled (h : Stepped (.free env) p x q) (hp : p.world.OverSettled) :
    q.world.OverSettled := by
  cases h with
  | move i c t hx ht hl hperm h => exact h.overSettled hp
  | outer y hx h => exact fun r hr => hp r ((outside_outer h).rounds ▸ hr)
  | stay h => exact h ▸ hp

/-- Where a session comes from. -/
theorem Stepped.session_rows (h : Stepped (.free env) p x q) {id : Nat} {s' : GameSession}
    (hs : q.world.sessions[id]? = some s') :
    (∃ s, p.world.sessions[id]? = some s ∧ s'.serverSeed = s.serverSeed ∧ s'.expiresAt = s.expiresAt ∧
      (s'.terminatedAt = none → s.terminatedAt = none)) ∨ p.world.serial ≤ s'.serverSeed.serial := by
  cases h with
  | move i c t hx ht hl hperm h =>
      rcases h.session_origin hs with ⟨s, hrow, rfl | ⟨hstep, -⟩⟩ | ⟨-, hseed, -⟩
      · exact .inl ⟨s', hrow, rfl, rfl, fun ho => ho⟩
      · cases hstep with
        | terminate => exact .inl ⟨s, hrow, rfl, rfl, fun ho => by cases ho⟩
        | countUp => exact .inl ⟨s, hrow, rfl, rfl, fun ho => ho⟩
        | reseed => exact .inr (Nat.le_refl _)
      · exact .inr (by rw [hseed])
  | outer y hx h => exact .inl ⟨s', (outside_outer h).sessions ▸ hs, rfl, rfl, fun ho => ho⟩
  | stay h => exact .inl ⟨s', h ▸ hs, rfl, rfl, fun ho => ho⟩

/-- Where a new round comes from. -/
theorem Stepped.round_origin (h : Stepped (.free env) p x q) {n : Nat} {r' : Round}
    (hr : q.world.rounds[n]? = some r') : (∃ r, p.world.rounds[n]? = some r ∧ r.Later r') ∨
      (p.world.rounds.length ≤ n ∧ ∃ i c t e polls, x = .run i c ∧ p.tasks[i]? = some t ∧ t.live ∧
        t.call = .iteration e polls) := by
  cases h with
  | move i c t hx ht hl hperm h =>
      rcases h.round_origin hr with ⟨r, hrow, -⟩ | ⟨hn, hnew⟩
      · obtain ⟨r'', hrow', hlater⟩ := h.later.round hrow
        obtain rfl := Option.some.inj (hr.symm.trans hrow')
        exact .inl ⟨r, hrow, hlater⟩
      · obtain ⟨e, polls, hk, -⟩ := hnew.loop
        exact .inr ⟨hn.ge, i, c, t, e, polls, hx, ht, hl, hk⟩
  | outer y hx h => exact .inl ⟨r', (outside_outer h).rounds ▸ hr, .refl _⟩
  | stay h => exact .inl ⟨r', h ▸ hr, .refl _⟩

/-- What was answered stays answered. -/
theorem Move.answers_kept (h : Move (.free env) i k w w') : ∀ y ∈ w.answers, y ∈ w'.answers := by
  intro y hy
  cases h with
  | idle h => exact h.answers.symm ▸ hy
  | answer z hz => exact List.mem_append_left _ hy
  | _ => exact hy

theorem Stepped.answers_kept (h : Stepped (.free env) p x q) :
    ∀ y ∈ p.world.answers, y ∈ q.world.answers := by
  cases h with
  | move i c t hx ht hl hperm h => exact h.answers_kept
  | outer z hx h => exact fun y hy => (outside_outer h).answers.symm ▸ hy
  | stay h => exact fun y hy => h.symm ▸ hy

/-- **A seed is told by a call that asks for it.** -/
theorem Guarded.told (h : Guarded env past p) (hs : (server env).step p x = some q)
    (hx : Stepped (.free env) p x q) (hsound : Sound (.free env) p.world) {seed : Seed}
    (hd : q.world.Disclosed seed) : p.world.Disclosed seed ∨ ∃ i c t, x = .run i c ∧
      p.tasks[i]? = some t ∧ t.live ∧ seed.serial < p.world.serial ∧
        p.world.Asks t.call seed.session := by
  obtain ⟨y, hy, hreveals⟩ := hd
  cases hx with
  | move i c t hrun ht hl hperm hmove =>
      subst hrun
      rcases h.telling.guar hs ht trivial (.refl _ _) ⟨hsound, h.ended⟩ trivial y hy with hy | hseed
      · exact .inl ⟨y, hy, hreveals⟩
      · exact .inr ⟨i, c, t, rfl, ht, hl, hseed seed hreveals⟩
  | outer z hrun hout => exact .inl ⟨y, (outside_outer hout).answers ▸ hy, hreveals⟩
  | stay hw => exact .inl ⟨y, hw ▸ hy, hreveals⟩

/-- The seeds that were told were drawn before. -/
theorem Guarded.bound_step (h : Guarded env past p) (hs : (server env).step p x = some q)
    (hx : Stepped (.free env) p x q) (hsound : Sound (.free env) p.world) :
    q.world.DisclosedBound := by
  intro seed hd
  rcases h.told hs hx hsound hd with hd | ⟨-, -, -, -, -, -, hlt, -⟩
  · exact Nat.lt_of_lt_of_le (h.bound seed hd) hx.paced.later.serial
  · exact Nat.lt_of_lt_of_le hlt hx.paced.later.serial

/-- **The round of a turn is made under a seed that was not told.** -/
theorem Guarded.new_round (h : Guarded env past p) (hs : (server env).step p x = some q)
    (hx : Stepped (.free env) p x q) (hsound : Sound (.free env) p.world) {n : Nat} {r' : Round}
    (hr : q.world.rounds[n]? = some r') (hn : p.world.rounds.length ≤ n) :
    ¬ p.world.Disclosed r'.serverSeed := by
  rcases hx.round_origin hr with ⟨r, hrow, -⟩ | ⟨-, i, c, t, e, polls, hrun, ht, hl, hcall⟩
  · exact absurd (List.getElem?_eq_some_iff.mp hrow).1 (Nat.not_lt.mpr hn)
  subst hrun
  by_cases hmade : RoundMade t
  · -- what is left of the call makes no round
    obtain ⟨k, β, run, next, b, w, hi, hrun, rfl⟩ := System.runTask_cases hs
    obtain rfl := Option.some.inj (hi.symm.trans ht)
    have hlen : w.rounds.length = p.world.rounds.length := hmade.1 i c p.world b w hrun
    exact absurd (hlen ▸ (List.getElem?_eq_some_iff.mp hr).1) (Nat.not_lt.mpr hn)
  · exact h.turning.guar hs ht ⟨⟨e, polls, hcall⟩, hmade⟩ (fun e _ => .refl e.key _)
      ⟨hsound, h.bound⟩ trivial n r' hr hn

/-- **A step keeps the seeds secret.** -/
theorem Guarded.secret_step (h : Guarded env past p) (hs : (server env).step p x = some q)
    (hA : AskedAfterUse p x q) (hx : Stepped (.free env) p x q) (hsound : Sound (.free env) p.world) :
    SeedsSecret (p :: past) q where
  settled r' hr' hd := by
    obtain ⟨n, hn⟩ := List.mem_iff_getElem?.mp hr'
    rcases hx.round_origin hn with ⟨r, hrow, hlater⟩ | ⟨hlen, i, c, t, e, polls, hrun, ht, -, hcall⟩
    · refine hlater.settled ?_
      have hmem := List.mem_of_getElem? hrow
      rw [hlater.serverSeed] at hd
      rcases h.told hs hx hsound hd with hd | ⟨i, c, t, hrun, ht, -, -, hasks⟩
      · exact h.secret.settled r hmem hd
      · rw [hsound.roundOwner hmem] at hasks
        exact hA.settled i (by rw [hrun]; rfl) t ht r hmem hasks
    · rcases h.told hs hx hsound hd with hd | ⟨j, c', u, hrun', hu, -, -, hasks⟩
      · exact absurd hd (h.new_round hs hx hsound hn hlen)
      · -- the call that makes the round asks for no seed
        obtain ⟨rfl, rfl⟩ := Event.run.inj (hrun.symm.trans hrun')
        obtain rfl := Option.some.inj (ht.symm.trans hu)
        rw [hcall] at hasks
        exact hasks.elim
  unused s hmem n r' hn hlen hd := by
    rcases List.mem_cons.mp hmem with rfl | hmem
    · exact h.new_round hs hx hsound hn hlen hd
    · rcases hx.round_origin hn with ⟨r, hrow, hlater⟩ | ⟨hnew, -⟩
      · exact h.secret.unused s hmem n r hrow hlen (hlater.serverSeed ▸ hd)
      · exact h.new_round hs hx hsound hn hnew (h.kept s hmem _ hd)

/-- A step leaves room to a call that tells a seed. -/
theorem Stepped.seedRely (h : Stepped (.free env) p x q) (hA : AskedAfterUse p x q)
    {t : Task World Choice Call} (ht : t ∈ p.tasks) (hl : t.live) :
    SeedRely t.call p.world q.world := ⟨h.paced.later, hA.found t ht hl⟩

/-- A step of another call leaves room to a turn that has yet to make its round. -/
theorem Guarded.turnRely (h : Guarded env past p) (hs : (server env).step p x = some q)
    (hA : AskedAfterUse p x q) (hx : Stepped (.free env) p x q) (hsound : Sound (.free env) p.world)
    {u : Task World Choice Call} (hu : u ∈ p.tasks) (hl : u.live) (hturning : RoundToMake u) :
    ∀ e, u.call.drives = some e → TurnRely e.key p.world q.world := by
  intro e he
  obtain ⟨⟨e', polls, hcall⟩, hnot⟩ := hturning
  rw [hcall] at he
  obtain rfl := Option.some.inj he
  refine ⟨hx.paced.later, hx.paced.now, hx.session_rows, fun seed hd => ?_⟩
  rcases h.told hs hx hsound hd with hd | ⟨i, c, t, hrun, ht, -, -, hasks⟩
  · exact .inl hd
  obtain ⟨s, hrow⟩ := hasks.session hsound
  refine .inr (World.ForeignSession.later ⟨s, hrow, fun hid => hnot ?_⟩ hx.paced.later)
  exact hA.made i (by rw [hrun]; rfl) t ht _ hasks u hu hl _ polls hcall ⟨s, hrow, hid⟩

/-- **A step keeps the invariant.** -/
theorem Guarded.step (h : Guarded env past p) (hs : (server env).step p x = some q)
    (hA : AskedAfterUse p x q) (hx : Stepped (.free env) p x q) (hsound : Sound (.free env) p.world)
    (hsound' : Sound (.free env) q.world) : Guarded env (p :: past) q where
  bound := h.bound_step hs hx hsound
  ended := hx.overSettled h.ended
  telling := by
    refine h.telling.step hs (fun i k w _ => .refl k w) (fun i k _ _ _ _ hab hbc => hab.trans hbc)
      (fun _ _ _ => ⟨⟨hsound, h.ended⟩, ⟨hsound', hx.overSettled h.ended⟩⟩)
      (fun i t ht hl _ _ => hx.seedRely hA (List.mem_of_getElem? ht) hl) (fun _ _ _ _ _ _ => trivial)
      fun k _ _ => code_tells
  turning := by
    refine h.turning.step hs ?_ (fun i t w _ e _ => .refl e.key w)
      (fun i t _ _ _ _ hab hbc e he => (hab e he).trans (hbc e he))
      (fun _ _ _ => ⟨⟨hsound, h.bound⟩, ⟨hsound', h.bound_step hs hx hsound⟩⟩)
      (fun i u hu hl hturning _ => h.turnRely hs hA hx hsound (List.mem_of_getElem? hu) hl hturning)
      (fun _ _ _ _ _ _ => trivial) fun k hk hturning => ?_
    · rintro k β run next b ⟨hcall, hnot⟩
      exact ⟨hcall, fun hmade => hnot (hmade.2 b)⟩
    · obtain ⟨⟨e, polls, rfl⟩, -⟩ := hturning
      exact turn_go (hA.unspent e polls hk) h.bound
  kept s hmem seed hd := by
    have hp : p.world.Disclosed seed := by
      rcases List.mem_cons.mp hmem with rfl | hmem
      · exact hd
      · exact h.kept s hmem seed hd
    exact hp.of_answers hx.answers_kept
  secret := h.secret_step hs hA hx hsound

end Runs

/-- **Seeds are secret until their last use.** In every run of any calls in any order, in which the seed
of a session is asked for only when every round of the session is settled and no turn of the loop is to
make another, and a turn begins only under a seed that was not told: every round under a seed that was
told is settled, and no round is made under it afterwards. -/
theorem seeds_secret {env : Env} {operators : List OperatorRow} {credentials : List OperatorCredential}
    {gameConfigs : List OperatorGameConfig} {past : List State} {p : State}
    (h : (server env).Trace AskedAfterUse (State.initial operators credentials gameConfigs) past p) :
    SeedsSecret past p := by
  have hinv : Ready (askedAfterUse_meets env) p ∧ Guarded env past p := by
    refine h.invariant (I := fun past p => Ready (askedAfterUse_meets env) p ∧ Guarded env past p)
      ⟨.initial _ operators credentials gameConfigs, .initial operators credentials gameConfigs⟩ ?_
    intro past p x q hs hA hp
    obtain ⟨hready, hguarded⟩ := hp
    obtain ⟨hready', hx⟩ := hready.step hs hA
    exact ⟨hready', hguarded.step hs hA hx hready.ok.inv hready'.ok.inv⟩
  exact hinv.2.secret

namespace Sample

/-- The proof of round 0 is asked for, by call `i`. -/
def proved (i : Nat) : List Happening := .call (.roundProof 0 none) :: run i 2

/-- The session of the engine gets a new seed, by call `i`. -/
def reseeded (i : Nat) : List Happening := .call (.rotateSeed 0 none none) :: run i 4

/-- Another turn of the loop, call `i`, makes a round under the session of the engine. -/
def anotherRound (i : Nat) : List Happening :=
  .call (.iteration (engine 0 0) 0) :: .run i (.pick 0) :: run i 7

end Sample

/-- The condition where no turn at all is under way when a seed is asked for. -/
structure AskedBetweenTurns (p : State) (x : Happening) (q : State) : Prop where
  settled : ∀ i ∈ ran? x, ∀ t ∈ p.tasks[i]?, ∀ r ∈ p.world.rounds,
    p.world.Asks t.call r.sessionId → r.settled = true
  between : ∀ i ∈ ran? x, ∀ t ∈ p.tasks[i]?, ∀ id < p.world.sessions.length,
    p.world.Asks t.call id → ∀ u ∈ p.tasks, u.live → ∀ e ∈ u.call.drives,
      ¬ p.world.EngineSession e.key id
  unspent : ∀ k ∈ called? x, ∀ e ∈ k.drives, p.world.Unspent e.key
  found : ∀ t ∈ p.tasks, t.live → KeptTransactions t.call p.world q.world

theorem AskedBetweenTurns.askedAfterUse {p q : State} {x : Happening} (h : AskedBetweenTurns p x q) :
    AskedAfterUse p x q where
  settled := h.settled
  made i hi t ht id hasks u hu hlive e polls hcall hengine := by
    obtain ⟨s, hs, hid⟩ := hengine
    refine absurd ⟨s, hs, hid⟩ (h.between i hi t ht id (List.getElem?_eq_some_iff.mp hs).1 hasks u hu
      hlive e ?_)
    rw [hcall]
    rfl
  unspent e polls hx := h.unspent (.iteration e polls) (by rw [hx]; rfl) e rfl
  found := h.found

section Decidable

set_option synthInstance.maxSize 512

instance decidableDisclosed (w : World) (seed : Seed) : Decidable (w.Disclosed seed) :=
  inferInstanceAs (Decidable (∃ x ∈ w.answers, x.2.reveals = some seed))

instance decidableEngineSession (w : World) (key : EngineKey) (id : Nat) :
    Decidable (w.EngineSession key id) :=
  inferInstanceAs (Decidable (∃ s ∈ w.sessions[id]?, s.identity = key.session))

instance decidableOverIn (w : World) (id roundId : Nat) (f : Round → Prop) [∀ r, Decidable (f r)] :
    Decidable (w.OverIn id roundId f) :=
  inferInstanceAs (Decidable (∃ r ∈ w.rounds[roundId]?, f r ∧ r.settled = true ∧ r.sessionId = id))

instance decidableAsks (w : World) : ∀ (k : Call) (id : Nat), Decidable (w.Asks k id)
  | .rotateSeed sessionId _ operatorId, id =>
      inferInstanceAs (Decidable (sessionId = id ∧ ∃ s ∈ w.sessions[id]?, ∀ op ∈ operatorId,
        op = s.operatorId))
  | .roundProof roundId operatorId, id =>
      inferInstanceAs (Decidable (w.OverIn id roundId fun r => ∀ op ∈ operatorId, op = r.operatorId))
  | .roundReplay roundId operatorId, id =>
      inferInstanceAs (Decidable (w.OverIn id roundId fun r => r.operatorId = operatorId))
  | .disputePack operatorId transactionUuid, id =>
      inferInstanceAs (Decidable (∃ b ∈ w.bets, b.operatorId = operatorId ∧
        b.hasTransaction transactionUuid = true ∧ w.OverIn id b.roundId fun _ => True))
  | .start _, _ | .iteration _ _, _ | .placeBet _ _, _ | .cashOut _ _, _ | .tick, _
  | .createSession _, _ | .terminateSession _ _ _, _ => inferInstanceAs (Decidable False)

instance decidableUnspent (w : World) (key : EngineKey) : Decidable (w.Unspent key) :=
  inferInstanceAs (Decidable (∀ (id : Nat) (s : GameSession), w.sessions[id]? = some s →
    s.identity = key.session → s.terminatedAt = none → w.now < s.expiresAt →
      ¬ w.Disclosed s.serverSeed))

instance decidableKeptTransactions : ∀ (k : Call) (w w' : World), Decidable (KeptTransactions k w w')
  | .disputePack _ transactionUuid, w, w' =>
      inferInstanceAs (Decidable (∀ n < w.bets.length, ∀ b ∈ w.bets[n]?, ∀ b' ∈ w'.bets[n]?,
        b.hasTransaction transactionUuid = true → b'.hasTransaction transactionUuid = true))
  | .start _, _, _ | .iteration _ _, _, _ | .placeBet _ _, _, _ | .cashOut _ _, _, _ | .tick, _, _
  | .createSession _, _, _ | .terminateSession _ _ _, _, _ | .rotateSeed _ _ _, _, _
  | .roundProof _ _, _, _ | .roundReplay _ _, _, _ => inferInstanceAs (Decidable True)

instance decidableAskedBetweenTurns (p : State) (x : Happening) (q : State) :
    Decidable (AskedBetweenTurns p x q) :=
  decidable_of_iff
    ((∀ i ∈ ran? x, ∀ t ∈ p.tasks[i]?, ∀ r ∈ p.world.rounds,
        p.world.Asks t.call r.sessionId → r.settled = true) ∧
      (∀ i ∈ ran? x, ∀ t ∈ p.tasks[i]?, ∀ id < p.world.sessions.length,
        p.world.Asks t.call id → ∀ u ∈ p.tasks, u.live → ∀ e ∈ u.call.drives,
          ¬ p.world.EngineSession e.key id) ∧
      (∀ k ∈ called? x, ∀ e ∈ k.drives, p.world.Unspent e.key) ∧
      ∀ t ∈ p.tasks, t.live → KeptTransactions t.call p.world q.world)
    ⟨fun ⟨h₁, h₂, h₃, h₄⟩ => ⟨h₁, h₂, h₃, h₄⟩, fun h => ⟨h.settled, h.between, h.unspent, h.found⟩⟩

end Decidable

/-- The seed of a round is told, and the next round is made under a new one. -/
theorem seeds_secret_reseeded : ∃ past p,
    (server Sample.site).Trace AskedAfterUse Sample.start past p ∧ p.world.rounds.length = 2 ∧
      (∃ r ∈ p.world.rounds, p.world.Disclosed r.serverSeed) ∧ SeedsSecret past p := by
  have h : ((server Sample.site).trail AskedBetweenTurns [] Sample.start (Sample.played ++
      Sample.proved 2 ++ Sample.reseeded 3 ++ Sample.anotherRound 4)).any (fun r =>
        r.2.world.rounds.length = 2 ∧ ∃ round ∈ r.2.world.rounds,
          r.2.world.Disclosed round.serverSeed) = true := by
    decide +kernel
  obtain ⟨⟨past, p⟩, hrun, hv⟩ := (Option.any_eq_true ..).mp h
  have htrace : (server Sample.site).Trace AskedAfterUse Sample.start past p :=
    (System.Trace.of_trail .start hrun).mono fun _ _ _ h => h.askedAfterUse
  obtain ⟨hlen, hdisclosed⟩ := of_decide_eq_true hv
  exact ⟨past, p, htrace, hlen, hdisclosed, seeds_secret htrace⟩

/-- **The proof of a round tells the seed of the next one.** -/
theorem seed_used_again : ∃ past p, (server Sample.site).Trace Anything Sample.start past p ∧
    ¬ SeedsSecret past p := by
  have h : ((server Sample.site).trail Anything [] Sample.start (Sample.played ++ Sample.proved 2 ++
      Sample.anotherRound 3)).any (fun r => ∃ round ∈ r.2.world.rounds,
        r.2.world.Disclosed round.serverSeed ∧ round.settled = false) = true := by
    decide +kernel
  obtain ⟨⟨past, p⟩, hrun, hv⟩ := (Option.any_eq_true ..).mp h
  obtain ⟨r, hr, hdisclosed, hopen⟩ := of_decide_eq_true hv
  refine ⟨past, p, .of_trail .start hrun, fun hsecret => ?_⟩
  rw [hsecret.settled r hr hdisclosed] at hopen
  cases hopen

end YantraRgs
