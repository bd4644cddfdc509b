import YantraRgs.Conduct.Running
import YantraRgs.Properties.Runs

/-! # One open round per engine

While an engine runs, at most one round of its key is open, and its loop begins a turn only when
none is. What may break this is a turn that throws after it created its round: the loop goes on with
the next one.

* **`OneOpenRound`** — the property.
* **`Unbroken`** — the condition on the runs.
* **`Steady`** — the invariant: one engine of a key runs, and where its loop does not turn, every
  round of the key is settled.
* **`one_open_round`** — the property in every state reached; `two_open_rounds` — a run in which a
  turn throws. -/

namespace YantraRgs

open Await

variable {env : Env} {p q : State} {x : Happening} {e : EngineRef}

/-- **At most one round is open** of the key of an engine that runs, and none when its loop begins a
turn. -/
def OneOpenRound (p : State) : Prop :=
  ∀ e, p.world.Runs e → p.world.OneOpen e.key ∧
    ∀ polls, (Call.iteration e polls).admitted p = true → p.world.AllSettled e.key

/-- The engine whose turn an event breaks off by an exception. -/
def broken? (p : State) : Happening → Option EngineRef
  | .kill i =>
      match p.tasks[i]? with
      | some ⟨.iteration e _, prog⟩ => if prog.ended then none else some e
      | _ => none
  | _ => none

/-- **One engine per key, started only when no other runs, and no turn of a running engine throws
while a round of its key is open.** -/
def Unbroken (p : State) (x : Happening) (_ : State) : Prop :=
  OneEngine p x ∧
    (∀ e ∈ started? x, ∀ engine ∈ p.world.engines, engine.key = e.key → engine.running = false) ∧
    ∀ e ∈ broken? p x, p.world.Runs e → p.world.AllSettled e.key

/-- The policy of such runs. -/
def Policy.unbroken (env : Env) : Policy :=
  { Policy.free env with oneEngine := True, closed := True }

/-- Such a run in which the loop begins a turn only when every round of its key is settled. -/
def UnbrokenTurns (p : State) (x : Happening) (q : State) : Prop :=
  Unbroken p x q ∧ ∀ e ∈ turned? x, p.world.AllSettled e.key

theorem unbrokenTurns_meets (henv : env.DrawsCrashes) :
    Meets (.unbroken env) UnbrokenTurns where
  permit _ _ := .of_free (fun h => h) (fun h => h) (fun h => h) fun h => h
  engines _ {_ _ _} h := h.1.1 _ rfl
  countedUp _ h := h.elim
  fit _ := ⟨fun _ h => h.elim, fun _ h => h.elim⟩
  closed _ _ {_ _ _ _} h := h.2 _ rfl
  crashes _ := henv
  configs h := h.elim
  verifies h := h.elim
  focus _ _ h := nomatch h

/-! ## The invariant -/

/-- A turn of an engine's loop is under way. -/
def Turning (p : State) (e : EngineRef) : Prop :=
  ∃ (n : Nat) (t : Task World Choice Call) (polls : Nat),
    p.tasks[n]? = some t ∧ t.live ∧ t.call = .iteration e polls

/-- **The engines that run, and what their loops left behind.** -/
structure Steady (p : State) : Prop where
  /-- One engine of a key runs. -/
  one : ∀ {e e' : EngineRef}, p.world.Runs e → p.world.Runs e' → e.key = e'.key → e = e'
  /-- It is the one in which rounds are driven. -/
  sole : ∀ {t : Task World Choice Call}, t ∈ p.tasks → t.live → ∀ {e e' : EngineRef},
    t.call.drives = some e → p.world.Runs e' → e.key = e'.key → e = e'
  rest : ∀ {e : EngineRef}, p.world.Runs e → p.world.AllSettled e.key ∨ Turning p e
  oneOpen : ∀ {e : EngineRef}, p.world.Runs e → p.world.OneOpen e.key

/-- The loop of an engine turns while it runs. -/
theorem runs_of_admitted {polls : Nat} (hadm : (Call.iteration e polls).admitted p = true) :
    p.world.Runs e := by
  simp only [Call.admitted, Bool.and_eq_true] at hadm
  obtain ⟨engine, he, hk⟩ := World.keyed_of_up hadm.1.1
  have hrun := hadm.1.2
  rw [he] at hrun
  exact ⟨engine, he, hk, hrun⟩

/-- A turn that begins finds every round of its key settled. -/
theorem Steady.allSettled (h : Steady p) {polls : Nat}
    (hadm : (Call.iteration e polls).admitted p = true) : p.world.AllSettled e.key := by
  rcases h.rest (runs_of_admitted hadm) with hset | ⟨n, t, polls', hn, hl, hcall⟩
  · exact hset
  · -- no other turn of the engine is under way
    simp only [Call.admitted, Bool.and_eq_true, Bool.not_eq_true', busy, List.any_eq_false,
      decide_eq_true_eq, not_and] at hadm
    refine absurd ?_ (hadm.2 t (List.mem_of_getElem? hn) hl)
    rw [hcall]
    rfl

theorem Steady.oneOpenRound (h : Steady p) : OneOpenRound p :=
  fun _ hr => ⟨h.oneOpen hr, fun _ => h.allSettled⟩

/-! ## One step -/

/-- An engine that runs ran before, unless the step ends its start. -/
theorem Stepped.runs {P : Policy} (h : Stepped P p x q) (hP : P.oneEngine)
    (hr : q.world.Runs e) : p.world.Runs e ∨ q.world.AllSettled e.key ∧
      ∃ (i : Nat) (c : Choice) (t : Task World Choice Call), x = .run i c ∧
        p.tasks[i]? = some t ∧ t.live ∧ t.call = .start e := by
  cases h with
  | move i c t hx ht hl hp h =>
      rcases h.runs hr with hr | ⟨hcall, hset⟩
      · exact .inl hr
      · exact .inr ⟨hset hP, i, c, t, hx, ht, hl, hcall⟩
  | outer y hx h => exact .inl (outside_runs h hr).1
  | stay h => exact .inl (h ▸ hr)

/-- No step opens a round beside another one of its key. -/
theorem Stepped.oneOpen {P : Policy} {key : EngineKey} (h : Stepped P p x q) (hP : P.oneEngine)
    (hC : P.closed) (ho : p.world.OneOpen key) : q.world.OneOpen key := by
  cases h with
  | move i c t hx ht hl hp h => exact h.oneOpen hP hC ho
  | outer y hx h => exact ho.congr (outside_outer h).rounds
  | stay h => exact ho.congr (congrArg World.rounds h)

variable {hmeets : Meets (.unbroken env) UnbrokenTurns}

/-- **A turn goes on or leaves every round of its key settled**, as long as its engine runs. -/
theorem Turning.step (h : Turning p e) (hready : Ready hmeets p)
    (hs : (server env).step p x = some q) (hA : UnbrokenTurns p x q)
    (hx : Stepped (.unbroken env) p x q) (hr : p.world.Runs e) (hr' : q.world.Runs e) :
    q.world.AllSettled e.key ∨ Turning q e := by
  obtain ⟨n, t, polls, hn, hl, hcall⟩ := h
  obtain ⟨t', hn', hcall', hend⟩ := System.step_ended hs hn hl
  by_cases hl' : t'.live
  · exact .inr ⟨n, t', polls, hn', hl', hcall'.trans hcall⟩
  rcases hend with hlive | ⟨c, rfl⟩ | rfl | ⟨y, rfl, hdies⟩
  · exact absurd hlive hl'
  · -- the turn came to its end
    exact .inl ((hready.turned hs hA hn' hl' (hcall'.trans hcall)).2 trivial trivial)
  · -- the turn was broken off
    have hbroken : broken? p (.kill n) = some e := by
      obtain ⟨call, prog⟩ := t
      obtain rfl : call = .iteration e polls := hcall
      simp only [broken?, hn]
      rw [if_neg (by rw [show prog.ended = false from hl]; decide)]
    obtain rfl : _ = q := by simpa [System.step] using hs
    exact .inl (hA.1.2.2 e hbroken hr)
  · -- its process ended
    have hdie : y = .die e := by
      simp only [server, hcall] at hdies
      split at hdies
      · simp only [Call.engine?, Option.some.injEq, decide_eq_true_eq] at hdies
        rw [hdies]
      · cases hdies
    obtain ⟨w, hw, rfl⟩ := Option.map_eq_some_iff.mp hs
    exact absurd hdie (outside_runs hw hr').2

/-- Where every round of a key was settled, every one is, or the loop begins a turn. -/
theorem Steady.settled (h : Steady p) (hready : Ready hmeets p)
    (hs : (server env).step p x = some q) (hA : UnbrokenTurns p x q)
    (hx : Stepped (.unbroken env) p x q) (hr : p.world.Runs e) (hr' : q.world.Runs e)
    (hset : p.world.AllSettled e.key) : q.world.AllSettled e.key ∨ Turning q e := by
  cases hx with
  | outer y hx hy => exact .inl (hset.congr (outside_outer hy).rounds)
  | stay hw => exact .inl (hset.congr (congrArg World.rounds hw))
  | move i c t hx ht hl hp hmove =>
      by_cases hturn : ∃ polls, t.call = .iteration e polls
      · obtain ⟨polls, hcall⟩ := hturn
        exact Turning.step ⟨i, t, polls, ht, hl, hcall⟩ hready hs hA (.move i c t hx ht hl hp hmove)
          hr hr'
      · refine .inl (hmove.allSettled hset fun e' polls hcall hk => hturn ⟨polls, ?_⟩)
        -- a turn of another engine of the key is not under way
        rw [hcall, h.sole (List.mem_of_getElem? ht) hl (by rw [hcall]; rfl) hr hk]

/-- **Every step of such a run keeps the invariant.** -/
theorem Steady.step (h : Steady p) (hready : Ready hmeets p)
    (hs : (server env).step p x = some q) (hA : UnbrokenTurns p x q)
    (hx : Stepped (.unbroken env) p x q) : Steady q where
  one {e e'} hr hr' hk := by
    rcases hx.runs trivial hr with hr | ⟨-, i, c, t, hxi, ht, hl, hcall⟩ <;>
      rcases hx.runs trivial hr' with hr' | ⟨-, i', c', t', hxi', ht', hl', hcall'⟩
    · exact h.one hr hr' hk
    · exact (h.sole (List.mem_of_getElem? ht') hl' (by rw [hcall']; rfl) hr hk.symm).symm
    · exact h.sole (List.mem_of_getElem? ht) hl (by rw [hcall]; rfl) hr' hk
    · -- both starts end at this step
      rw [hxi] at hxi'
      injection hxi' with hi
      subst hi
      obtain rfl := Option.some.inj (ht.symm.trans ht')
      rw [hcall] at hcall'
      injection hcall'
  sole {u} hu hlu {e e'} hd hr hk := by
    obtain ⟨n, hn⟩ := List.mem_iff_getElem?.mp hu
    rcases System.step_live hs hn hlu with ⟨u', hn', hcallu, hlu'⟩ | ⟨rfl, -, hadm⟩
    · have hd' : u'.call.drives = some e := hcallu ▸ hd
      rcases hx.runs trivial hr with hr | ⟨-, i, c, t, -, ht, hl, hcall⟩
      · exact h.sole (List.mem_of_getElem? hn') hlu' hd' hr hk
      · by_cases hni : n = i
        · subst hni
          obtain rfl := Option.some.inj (hn'.symm.trans ht)
          rw [hcall] at hd'
          exact (Option.some.inj hd').symm
        · -- the engine that was started is the one in which rounds are driven
          exact (hready.ok.compat n i u' t hni hn' ht hlu' hl trivial e e'
            (Call.engine?_of_drives hd') (by rw [hcall]; rfl) hk).1
    · obtain ⟨-, rfl⟩ := System.call_cases hs
      cases hcall : u.call with
      | start e₁ =>
          -- an engine is started only when none of its key runs
          rw [hcall] at hd hA
          obtain rfl : e₁ = e := Option.some.inj hd
          obtain ⟨engine, he, hke, hrun⟩ := hr
          rw [hA.1.2.1 e₁ rfl engine (List.mem_of_getElem? he) (hke.trans hk.symm)] at hrun
          cases hrun
      | iteration e₁ polls =>
          rw [hcall] at hd hadm
          obtain rfl : e₁ = e := Option.some.inj hd
          have hadm' : (Call.iteration e₁ polls).admitted p = true := hadm
          exact h.one (runs_of_admitted hadm') hr hk
      | _ =>
          rw [hcall] at hd
          cases hd
  rest {e} hr := by
    rcases hx.runs trivial hr with hr₀ | ⟨hset, -⟩
    · rcases h.rest hr₀ with hset | hturn
      · exact h.settled hready hs hA hx hr₀ hr hset
      · exact hturn.step hready hs hA hx hr₀ hr
    · exact .inl hset
  oneOpen hr := by
    rcases hx.runs trivial hr with hr | ⟨hset, -⟩
    · exact hx.oneOpen trivial trivial (h.oneOpen hr)
    · exact hset.oneOpen

/-! ## Runs -/

/-- No engine runs before anything happened. -/
theorem Steady.initial (operators : List OperatorRow) (credentials : List OperatorCredential)
    (gameConfigs : List OperatorGameConfig) :
    Steady (State.initial operators credentials gameConfigs) := by
  have hnone : ∀ e, ¬ (State.initial operators credentials gameConfigs).world.Runs e := by
    rintro e ⟨engine, he, -⟩
    simp [State.initial, World.initial, World.engine?] at he
  exact ⟨fun hr => absurd hr (hnone _), fun ht => (by cases ht), fun hr => absurd hr (hnone _),
    fun hr => absurd hr (hnone _)⟩

/-- A turn begins only when every round of its key is settled. -/
theorem Steady.turns (h : Steady p) (hs : (server env).step p x = some q) (hB : Unbroken p x q) :
    UnbrokenTurns p x q := by
  refine ⟨hB, fun e he => ?_⟩
  cases x with
  | call k =>
      cases k with
      | iteration e' polls =>
          obtain rfl : e' = e := Option.some.inj he
          have hadm : (Call.iteration e' polls).admitted p = true := (System.call_cases hs).1
          exact h.allSettled hadm
      | _ => cases he
  | _ => cases he

/-- **One open round per engine.** In every run of any calls in any order in which engines of one
key do not run together and no turn of a running engine throws while a round of its key is open:
at most one round of the key of an engine that runs is open, and none when a turn begins. -/
theorem one_open_round (henv : env.DrawsCrashes) (h : History env Unbroken p) :
    OneOpenRound p := by
  obtain ⟨operators, credentials, gameConfigs, hrun⟩ := h
  have hmeets := unbrokenTurns_meets henv
  have hsteady := (run_ready (Ready.initial hmeets operators credentials gameConfigs) hrun
    (Steady.initial operators credentials gameConfigs) (fun hs hB hJ => hJ.turns hs hB)
    fun hs hB hready hx hJ => hJ.step hready hs (hJ.turns hs hB) hx).2
  exact hsteady.oneOpenRound

/-! ## Two runs -/

instance (w : World) (e : EngineRef) : Decidable (w.Runs e) :=
  decidable_of_iff ((w.engine? e).any fun engine => engine.key = e.key ∧ engine.running) (by
    simp only [Option.any_eq_true, decide_eq_true_eq, World.Runs])

instance (w : World) (key : EngineKey) : Decidable (w.AllSettled key) :=
  inferInstanceAs (Decidable (∀ r ∈ w.rounds, r.key = key → r.settled = true))

instance (p : State) (x : Happening) (q : State) : Decidable (Unbroken p x q) :=
  inferInstanceAs (Decidable (OneEngine p x ∧
    (∀ e ∈ started? x, ∀ engine ∈ p.world.engines, engine.key = e.key → engine.running = false) ∧
    ∀ e ∈ broken? p x, p.world.Runs e → p.world.AllSettled e.key))

namespace Sample

theorem site_drawsCrashes : site.DrawsCrashes := by
  intro game plugin hplugin hlive ctx config
  simp only [site, Option.mem_def] at hplugin
  split at hplugin
  · obtain rfl := Option.some.inj hplugin
    cases hlive
  · obtain rfl := Option.some.inj hplugin
    rfl
  · cases hplugin

/-- Ann's bet is accepted, an action of the turn throws, and the next turn (call 4) creates its
round. -/
def thrown : List Happening :=
  opened 0 (.dice .low) .none 13 ++ .kill 1 :: .call (.iteration (engine 0 0) 1) ::
    .run 4 (.pick 0) :: run 4 2

/-- Whether the engine of the dice game runs with the rounds of the given numbers open, and an
accepted bet of the first is left. -/
def leaves (m n : Nat) (p : State) : Bool :=
  decide (p.world.Runs (engine 0 0)) &&
    (p.world.rounds[m]?).any (fun r => r.key = (engine 0 0).key && !r.settled) &&
    (p.world.rounds[n]?).any (fun r => r.key = (engine 0 0).key && !r.settled) &&
    p.world.bets.any fun b => b.roundId = m && b.status = .accepted

theorem leaves_iff {m n : Nat} : leaves m n p = true ↔ p.world.Runs (engine 0 0) ∧
    (∃ r, p.world.rounds[m]? = some r ∧ r.key = (engine 0 0).key ∧ r.settled = false) ∧
    (∃ r, p.world.rounds[n]? = some r ∧ r.key = (engine 0 0).key ∧ r.settled = false) ∧
    ∃ b ∈ p.world.bets, b.roundId = m ∧ b.status = .accepted := by
  simp only [leaves, Bool.and_eq_true, decide_eq_true_eq, Option.any_eq_true, Bool.not_eq_true',
    List.any_eq_true, and_assoc]

end Sample

/-- The round in which ann's bet was accepted is the only open one. -/
theorem one_open_round_opened : ∃ p, History Sample.site Unbroken p ∧
    Sample.leaves 0 0 p = true ∧ OneOpenRound p := by
  have h : Sample.shows Unbroken (Sample.opened 0 (.dice .low) .none 13)
      (Sample.leaves 0 0) = true := by decide +kernel
  obtain ⟨p, hp, hv⟩ := Sample.history_of_shows h
  exact ⟨p, hp, hv, one_open_round Sample.site_drawsCrashes hp⟩

/-- **Two open rounds of a running engine**: an action of a turn throws after a bet was accepted,
and the loop goes on with the next round. -/
theorem two_open_rounds : ∃ p, History Sample.site Anything p ∧
    (∃ b ∈ p.world.bets, b.roundId = 0 ∧ b.status = .accepted) ∧ ¬ OneOpenRound p := by
  have h : Sample.shows Anything Sample.thrown (Sample.leaves 0 1) = true := by decide +kernel
  obtain ⟨p, hp, hv⟩ := Sample.history_of_shows h
  obtain ⟨hruns, ⟨r, hr, hk, hs⟩, ⟨r', hr', hk', hs'⟩, hbet⟩ := Sample.leaves_iff.mp hv
  refine ⟨p, hp, hbet, fun hone => ?_⟩
  exact absurd ((hone _ hruns).1 0 1 r r' hr hr' hk hk' hs hs') (by decide)

end YantraRgs
