import YantraRgs.Await.Watch
import YantraRgs.Conduct.Flight
import YantraRgs.Conduct.Resume

/-! # Flights under watch

A turn of the loop of a live game keeps its round in flight until the time of the crash, as long as it
finds its engine running, and closes no bet before. A start closes the bets of the rounds it finds
unsettled whose outcome is stored.

* **`World.Undisturbed`** — what a call that drives an engine is to find.
* **`FlightRely`**, **`FlightGuar`** — what the others leave to such a call, and what it does.
* **`start_flown`**, **`iteration_flown`** — both calls keep to it. -/

namespace YantraRgs

open Await

namespace World

variable (w : World)

/-- The rounds whose bets a call is to decide: a start decides those of its key, a turn of the loop its
own round once it is not in flight any more. -/
def Decides (k : Call) (id : Nat) : Prop :=
  match k with
  | .start e => w.RoundOf id e.key
  | .iteration e _ => ∃ a ∈ w.active? e, a.id = id ∧ a.phase ≠ .rolling
  | _ => False

/-- The rounds whose bets a call may close as lost: the outcome is stored, or the flight is over. -/
def MayLose (k : Call) (id : Nat) : Prop :=
  match k with
  | .start e => w.RoundOf id e.key ∧ w.OutcomeKnown id
  | .iteration e _ => ∃ a ∈ w.active? e, a.id = id ∧ a.phase ≠ .rolling ∧ a.crashAtMs.isSome = true
  | _ => False

/-- **What a call that drives an engine is to find**: a turn of the loop finds the engine running as long
as its round is in flight, and a start finds no round of its key in flight. -/
def Undisturbed (k : Call) : Prop :=
  match k with
  | .start e => ∀ engine ∈ w.engines, ∀ a ∈ engine.actives, w.RoundOf a.id e.key →
      a.airborne w.now = false
  | .iteration e _ => ∀ engine ∈ w.engine? e, ∀ a ∈ engine.active, a.airborne w.now = true →
      engine.running = true
  | _ => True

/-- The row of a bet of a round, with no cash-out noted on it. -/
def Uncashed (id n : Nat) : Prop :=
  ∃ b, w.bets[n]? = some b ∧ b.roundId = id ∧ b.cashoutPayoutMicro = none

end World

/-- What a call that drives an engine may rely on, as far as flights go. -/
structure FlightRely (k : Call) (w w' : World) : Prop where
  later : Later w w'
  now : w.now ≤ w'.now
  memory : ∀ e, k.drives = some e → w'.memory e = w.memory e
  uncashed : ∀ {n : Nat} {b b' : Bet}, w.bets[n]? = some b → w'.bets[n]? = some b' →
    w.Decides k b.roundId → b.cashoutPayoutMicro = none → b'.cashoutPayoutMicro = none

/-- **What one action of a call that drives an engine does**: a round object stays in flight until the
time of its crash, a bet that is lost is one that it may close, with no cash-out on it, and an outcome is
stored when the round is in the memory of its engine with the time of its crash. -/
structure FlightGuar (k : Call) (w w' : World) : Prop where
  aloft : ∀ e, k.drives = some e → ∀ {n : Nat} {a : ActiveRound}, (w.memory e)[n]? = some a →
    a.phase = .rolling → ∀ c ∈ a.crashAtMs,
      (w'.memory e)[n]? = some a ∨ a.phaseStartedAt + c ≤ w.now
  taken : ∀ e, k.drives = some e → ∀ {n : Nat} {a' : ActiveRound}, (w'.memory e)[n]? = some a' →
    a'.crashAtMs.isSome = true → a'.phase = .rolling ∨
      ∃ a, (w.memory e)[n]? = some a ∧ a'.id = a.id ∧ a'.crashAtMs = a.crashAtMs
  lost : ∀ {n : Nat} {b' : Bet}, w'.bets[n]? = some b' → b'.won = some false →
    (∃ b, w.bets[n]? = some b ∧ b.StillLost b') ∨
      (b'.cashoutPayoutMicro = none ∧ b'.settledAt = some w.now ∧ w.MayLose k b'.roundId)
  drawn : ∀ {id : Nat} {r' : Round}, w'.rounds[id]? = some r' → r'.outcome.isSome = true →
    w.OutcomeKnown id ∨ ∃ e, k.drives = some e ∧ ∃ a ∈ w'.active? e, a.id = id ∧
      a.crashAtMs.isSome = true

/-- **The rules for a call that drives an engine.** -/
def flightRules (env : Env) (i : Nat) (k : Call) : Rules World where
  inv := Sound (.free env)
  permit w w' := Move (.free env) i k w w' ∧ w.Undisturbed k
  rely := FlightRely k
  guar := FlightGuar k

section Rules

variable {env : Env} {i : Nat} {k : Call} {e : EngineRef} {w w' w'' : World} {α β : Type}

theorem FlightRely.refl (k : Call) (w : World) : FlightRely k w w where
  later := .refl w
  now := Nat.le_refl _
  memory _ _ := rfl
  uncashed hb hb' _ hc := by
    obtain rfl := Option.some.inj (hb.symm.trans hb')
    exact hc

/-- What a call is to decide, it still is. -/
theorem FlightRely.decides (h : FlightRely k w w') {id : Nat} (hd : w.Decides k id) :
    w'.Decides k id := by
  cases k with
  | start e => exact h.later.roundOf hd
  | iteration e polls =>
      obtain ⟨a, ha, hrest⟩ := hd
      rw [World.active?_eq, ← h.memory e rfl, ← World.active?_eq] at ha
      exact ⟨a, ha, hrest⟩
  | _ => exact hd

theorem FlightRely.trans (h : FlightRely k w w') (h' : FlightRely k w' w'') :
    FlightRely k w w'' where
  later := h.later.trans h'.later
  now := Nat.le_trans h.now h'.now
  memory e he := (h'.memory e he).trans (h.memory e he)
  uncashed hb hb'' hd hc := by
    obtain ⟨b', hb', hl⟩ := h.later.bet hb
    exact h'.uncashed hb' hb'' (hl.roundId.symm ▸ h.decides hd) (h.uncashed hb hb' hd hc)

/-- What does no harm is within the guarantee. -/
theorem Harmless.guar (h : Harmless w w') : FlightGuar k w w' where
  aloft e _ n a ha _ _ _ := .inl (by rw [h.memory e]; exact ha)
  taken e _ n a' ha' _ := .inr ⟨a', h.memory e ▸ ha', rfl, rfl⟩
  lost hb hlost := .inl (h.lost hb hlost)
  drawn hr ho := .inl (h.drawn hr ho)

/-- Call `i`, a `k` that drives an engine, may go on with a program. -/
abbrev Flown (env : Env) (i : Nat) (k : Call) (x : Action α) (Q : α → World → Prop) (w : World) :
    Prop :=
  Go (flightRules env i k) i x Q w

/-- What the others do not take away. -/
def FlightStable (k : Call) (R : World → Prop) : Prop :=
  ∀ ⦃w w' : World⦄, FlightRely k w w' → R w → R w'

/-- A program that does no harm keeps what the others and its own actions leave alone. -/
theorem Flown.keeps {S : World → World → Prop} {R : World → Prop} {x : Action α} (hx : x.Keeps S)
    (hS : ∀ {w w'}, S w w' → Harmless w w') (hR : R w) (hstable : FlightStable k R)
    (hown : ∀ {w w'}, S w w' → Move (.free env) i k w w' → R w → R w') :
    Flown env i k x (fun _ w' => R w') w := by
  induction x generalizing w with
  | ret a => exact hR
  | act run next ih =>
      intro w₁ hr _ c b w₂ hrun hp
      have hs := hx.1 i c w₁ b w₂ hrun
      exact ⟨(hS hs).guar, fun _ => ih b (hx.2 b) (hown hs hp.1 (hstable hr hR))⟩

/-- What an idle program does, the others may do as well. -/
theorem Same.flightRely (h : Same w w') : FlightRely k w w' where
  later := h.later
  now := h.now.ge
  memory e _ := h.memory e
  uncashed hb hb' _ hc := by
    rw [h.bets] at hb'
    obtain rfl := Option.some.inj (hb.symm.trans hb')
    exact hc

/-- **An idle program keeps every stable fact.** -/
theorem Flown.idle {R : World → Prop} {x : Action α} (hx : Idle x) (hR : R w)
    (hstable : FlightStable k R) : Flown env i k x (fun _ w' => R w') w :=
  Flown.keeps hx (fun h => h.sameBets.resolving.toLossless.harmless) hR hstable fun h _ hR =>
    hstable h.flightRely hR

theorem Flown.idle_bind {R : World → Prop} {x : Action α} {f : α → Action β}
    {Q : β → World → Prop} (hx : Idle x) (hR : R w) (hstable : FlightStable k R)
    (h : ∀ a w, R w → Flown env i k (f a) Q w) : Flown env i k (x >>= f) Q w :=
  Go.bind_iff.mpr ((Flown.idle hx hR hstable).mono fun a w' hw => h a w' hw)

/-- A program that does no harm may go on. -/
theorem Flown.of_harmless {x : Action α} (hx : x.Keeps Harmless) :
    Flown env i k x (fun _ _ => True) w :=
  Flown.keeps (R := fun _ => True) hx id trivial (fun _ _ _ h => h) fun _ _ h => h

/-- A call ends in a later world. -/
theorem Flown.later {x : Action α} {Q : α → World → Prop} (h : Flown env i k x Q w) :
    Flown env i k x (fun a w' => Q a w' ∧ Later w w') w :=
  h.track (.refl w) Later.trans (fun hr => hr.later) fun hp _ => hp.1.later

/-- What leaves the round objects alone is within the guarantee, as far as its losses are. -/
theorem FlightGuar.of_memory (hm : ∀ e, w'.memory e = w.memory e)
    (hlost : ∀ {n : Nat} {b' : Bet}, w'.bets[n]? = some b' → b'.won = some false →
      (∃ b, w.bets[n]? = some b ∧ b.StillLost b') ∨
        (b'.cashoutPayoutMicro = none ∧ b'.settledAt = some w.now ∧ w.MayLose k b'.roundId))
    (hdrawn : ∀ {id : Nat} {r' : Round}, w'.rounds[id]? = some r' → r'.outcome.isSome = true →
      w.OutcomeKnown id ∨ ∃ e, k.drives = some e ∧ ∃ a ∈ w'.active? e, a.id = id ∧
        a.crashAtMs.isSome = true) : FlightGuar k w w' where
  aloft e _ n a ha _ _ _ := .inl (by rw [hm e]; exact ha)
  taken e _ n a' ha' _ := .inr ⟨a', hm e ▸ ha', rfl, rfl⟩
  lost := hlost
  drawn := hdrawn

end Rules

/-! ## Bets are decided -/

section Deciding

variable {env : Env} {i : Nat} {k : Call} {e : EngineRef} {w w' : World} {id : Nat}
  {bets : List (Nat × Bet)} {α : Type}

theorem World.MayLose.decides (h : w.MayLose k id) : w.Decides k id := by
  cases k with
  | start e => exact h.1
  | iteration e polls =>
      obtain ⟨a, ha, hid, hphase, -⟩ := h
      exact ⟨a, ha, hid, hphase⟩
  | _ => exact h

/-- What a call may close as lost, it still may, as long as its round objects stay. -/
theorem World.MayLose.later (h : w.MayLose k id) (hl : Later w w')
    (hm : ∀ e, k.drives = some e → w'.memory e = w.memory e) : w'.MayLose k id := by
  cases k with
  | start e => exact ⟨hl.roundOf h.1, hl.outcomeKnown h.2⟩
  | iteration e polls =>
      obtain ⟨a, ha, hrest⟩ := h
      rw [World.active?_eq, ← hm e rfl, ← World.active?_eq] at ha
      exact ⟨a, ha, hrest⟩
  | _ => exact h

/-- **A call is to decide the bets of a round**: it may close them as lost, and those that it read with
no cash-out have none. -/
structure Deciding (k : Call) (id : Nat) (bets : List (Nat × Bet)) (w : World) : Prop where
  mayLose : w.MayLose k id
  uncashed : ∀ b ∈ bets, b.2.cashoutPayoutMicro = none → w.Uncashed id b.1

theorem Deciding.tail {b : Nat × Bet} (h : Deciding k id (b :: bets) w) : Deciding k id bets w :=
  ⟨h.mayLose, fun x hx => h.uncashed x (List.mem_cons_of_mem b hx)⟩

theorem deciding_stable : FlightStable k (Deciding k id bets) := by
  intro w w' hr h
  refine ⟨h.mayLose.later hr.later hr.memory, fun b hb hc => ?_⟩
  obtain ⟨x, hx, hround, hnone⟩ := h.uncashed b hb hc
  obtain ⟨x', hx', hl⟩ := hr.later.bet hx
  exact ⟨x', hx', hl.roundId.trans hround, hr.uncashed hx hx' (hround ▸ h.mayLose.decides) hnone⟩

theorem Deciding.paying (h : Deciding k id bets w) (hp : Paying w w') (hl : Later w w') :
    Deciding k id bets w' := by
  refine ⟨h.mayLose.later hl fun e _ => hp.memory e, fun b hb hc => ?_⟩
  obtain ⟨x, hx, hround, hnone⟩ := h.uncashed b hb hc
  obtain ⟨x', hx', hround', hcash⟩ := hp.rows hx
  exact ⟨x', hx', hround'.trans hround, hcash.trans hnone⟩

theorem paying_flown {x : Action α} (hx : x.Keeps Paying) (h : Deciding k id bets w) :
    Flown env i k x (fun _ w' => Deciding k id bets w') w :=
  Flown.keeps hx (fun hp => hp.toHarmless) h deciding_stable fun hp hm h => h.paying hp hm.later

/-- **Closing a lost bet.** -/
theorem closeLost_flown {b : Nat × Bet} {reason : String} (h : Deciding k id (b :: bets) w)
    (hc : b.2.cashoutPayoutMicro = none) :
    Flown env i k (GameEngine.closeLost b.1 reason) (fun _ w' => Deciding k id bets w') w := by
  refine Go.bind_iff.mpr (Go.mono (Q := fun _ w' => Deciding k id bets w')
    (Go.modify fun w₁ hr _ hp => ?_) fun _ w h => paying_flown (Idle.resolveHeld _ _).paying h)
  have h₁ := deciding_stable hr h
  obtain ⟨x, hx, hround, hnone⟩ := h₁.uncashed b List.mem_cons_self hc
  refine ⟨.of_memory (fun _ => rfl) (fun {n b'} hb' hlost => ?_) fun hr ho => .inl ⟨_, hr, ho⟩,
    fun _ => ⟨h₁.mayLose.later hp.1.later fun _ _ => rfl, fun y hy hyc => ?_⟩⟩
  · simp only [World.updateBet, List.getElem?_modify] at hb'
    obtain ⟨b₀, hb₀, rfl⟩ := Option.map_eq_some_iff.mp hb'
    by_cases hn : b.1 = n
    · subst hn
      obtain rfl := Option.some.inj (hx.symm.trans hb₀)
      rw [if_pos rfl]
      exact .inr ⟨hnone, rfl, hround ▸ h₁.mayLose⟩
    · simp only [if_neg hn] at hlost ⊢
      exact .inl ⟨b₀, hb₀, .refl hlost⟩
  · obtain ⟨y₀, hy₀, hyround, hynone⟩ := h₁.tail.uncashed y hy hyc
    obtain ⟨y', hy', hyround', hycash⟩ := rows_updateBet b.1 (f := Bet.lose w₁.now)
      (fun _ => ⟨rfl, rfl⟩) hy₀
    exact ⟨y', hy', hyround'.trans hyround, hycash.trans hynone⟩

end Deciding

/-! ## A start -/

section Start

variable {env : Env} {i : Nat} {e : EngineRef} {w : World} {plugin : GamePlugin} {r : Nat × Round}
  {bets : List (Nat × Bet)}

/-- Resuming a bet. -/
theorem resumeBet_flown {outcome : GameOutcome} {total : Int} {b : Nat × Bet}
    (h : Deciding (.start e) r.1 (b :: bets) w) :
    Flown env i (.start e) (GameEngine.resumeBet e plugin r outcome total b)
      (fun _ w' => Deciding (.start e) r.1 bets w') w := by
  unfold GameEngine.resumeBet
  split
  · exact h.tail
  rename_i hnone
  refine Flown.idle_bind (Idle.engine e) h deciding_stable fun engine w h => ?_
  split
  · exact h.tail
  dsimp only
  split
  · exact Go.bind_iff.mpr ((closeLost_flown h hnone).mono fun _ _ h => h)
  · exact Go.bind_iff.mpr ((paying_flown ((Still.requeueWin _ _ _).mono Resolving.paying)
      h.tail).mono fun _ _ h => h)

/-- **Resuming a round with a known outcome.** -/
theorem resumeKnown_flown {outcome : GameOutcome} (h : w.MayLose (.start e) r.1) :
    Flown env i (.start e) (GameEngine.resumeKnown e plugin r outcome) (fun _ _ => True) w := by
  refine Go.bind_iff.mpr (findMany_reads (fun w => (Paying.refl w).guar) fun w₁ bets hr _ _ hrows => ?_)
  have hread : Deciding (.start e) r.1 bets w₁ := by
    refine ⟨h.later hr.later hr.memory, fun b hb hc => ?_⟩
    obtain ⟨hrow, hp⟩ := (hrows b.1 b.2).mp hb
    exact ⟨b.2, hrow, (of_decide_eq_true hp).1, hc⟩
  refine Go.bind_iff.mpr (Go.fold (fun _ bets w => Deciding (.start e) r.1 bets w) hread
    (fun _ _ _ _ h => resumeBet_flown h) fun total w h => ?_)
  refine Go.modify fun w₁ _ _ _ => ⟨?_, fun _ => trivial⟩
  have hpaying : Paying w₁ (w₁.updateRound r.1 (Round.settle total w₁.now)) :=
    .updateRound fun _ => rfl
  exact hpaying.guar

/-- Resuming a round whose outcome is not known. -/
theorem resumeUnknown_flown :
    Flown env i (.start e) (GameEngine.resumeUnknown r) (fun _ _ => True) w := by
  refine Flown.of_harmless (Prog.Keeps.mono (S := Paying) ?_ Paying.toHarmless)
  refine Prog.Keeps.bind (Prog.Keeps.modify fun _ => .updateRound fun _ => rfl) fun _ => ?_
  refine Prog.Keeps.bind (Idle.findMany _ _).paying fun accepted => ?_
  exact Prog.Keeps.each (fun b => (Still.voidBet r b).mono Resolving.paying) accepted

/-- A start has still to resume rounds of its key. -/
def ToResume (e : EngineRef) (rounds : List (Nat × Round)) (w : World) : Prop :=
  ∀ r ∈ rounds, w.RoundOf r.1 e.key ∧ (r.2.outcome.isSome = true → w.OutcomeKnown r.1)

/-- **Starting an engine.** -/
theorem start_flown : Flown env i (.start e) (GameEngine.start env e) (fun _ _ => True) w := by
  unfold GameEngine.start
  split
  · trivial
  rename_i plugin _
  refine Flown.idle_bind (R := fun _ => True) (Idle.engine e) trivial (fun _ _ _ h => h)
    fun engine w _ => ?_
  split
  · trivial
  refine Go.bind_iff.mpr (Go.bind_iff.mpr (findMany_reads (fun w => (Paying.refl w).guar)
    fun w₁ rounds _ _ _ hrows => ?_))
  have hread : ToResume e rounds w₁ := by
    intro r hr
    obtain ⟨hrow, hstuck⟩ := (hrows r.1 r.2).mp hr
    exact ⟨⟨r.2, hrow, key_of_stuck hstuck⟩, fun ho => ⟨r.2, hrow, ho⟩⟩
  refine Go.each (fun rounds w => ToResume e rounds w) hread (fun r rest w h => ?_) fun w _ => ?_
  · obtain ⟨hround, hknown⟩ := h r List.mem_cons_self
    have hgo : Flown env i (.start e) (GameEngine.resumeRound e plugin r) (fun _ _ => True) w := by
      unfold GameEngine.resumeRound
      split
      · rename_i outcome hout
        exact resumeKnown_flown ⟨hround, hknown (by rw [hout]; rfl)⟩
      · exact resumeUnknown_flown
    refine hgo.later.mono fun _ w' ⟨_, hl⟩ x hx => ?_
    obtain ⟨hround, hknown⟩ := h x (List.mem_cons_of_mem r hx)
    exact ⟨hl.roundOf hround, fun ho => hl.outcomeKnown (hknown ho)⟩
  · exact Go.modify fun w₁ _ _ _ => ⟨.of_memory (fun e' => memory_updateEngine fun _ _ => rfl)
      (fun hb hlost => .inl ⟨_, hb, .refl hlost⟩) fun hr ho => .inl ⟨_, hr, ho⟩, fun _ => trivial⟩

end Start

/-! ## A turn of the loop -/

/-- The engine shows an active round of which a fact holds at this time. -/
def World.Shows (w : World) (e : EngineRef) (φ : ActiveRound → Millis → Prop) : Prop :=
  ∃ a, w.active? e = some a ∧ φ a w.now

/-- Time does not take away a fact. -/
def Lasting (φ : ActiveRound → Millis → Prop) : Prop := ∀ a {t t'}, t ≤ t' → φ a t → φ a t'

/-- Betting is open in a round. -/
def Boarding (active a : ActiveRound) (_now : Millis) : Prop := a = active ∧ a.phase = .bettingOpen

/-- A round took off for a flight of the given time. -/
def Aloft (id : Nat) (crashAtMs : Millis) (a : ActiveRound) (now : Millis) : Prop :=
  (a.id = id ∧ a.phase = .rolling ∧ a.crashAtMs = some crashAtMs) ∧ a.phaseStartedAt ≤ now

/-- The time of the crash has come. -/
def Crashed (id : Nat) (crashAtMs : Millis) (a : ActiveRound) (now : Millis) : Prop :=
  (a.id = id ∧ a.phase = .rolling ∧ a.crashAtMs = some crashAtMs) ∧
    a.phaseStartedAt + crashAtMs ≤ now

/-- A round was in flight and is not any more. -/
def Down (id : Nat) (a : ActiveRound) (_now : Millis) : Prop :=
  a.id = id ∧ a.phase ≠ .rolling ∧ a.crashAtMs.isSome = true

theorem boarding_lasting {active : ActiveRound} : Lasting (Boarding active) := fun _ _ _ _ h => h

theorem aloft_lasting {id : Nat} {crashAtMs : Millis} : Lasting (Aloft id crashAtMs) :=
  fun _ _ _ hle h => ⟨h.1, Nat.le_trans h.2 hle⟩

theorem crashed_lasting {id : Nat} {crashAtMs : Millis} : Lasting (Crashed id crashAtMs) :=
  fun _ _ _ hle h => ⟨h.1, Nat.le_trans h.2 hle⟩

theorem down_lasting {id : Nat} : Lasting (Down id) := fun _ _ _ _ h => h

section Turn

variable {env : Env} {i : Nat} {e : EngineRef} {polls : Nat} {w w' : World} {plugin : GamePlugin}
  {live : LiveCrashSupport} {active : ActiveRound} {id : Nat} {crashAtMs : Millis}
  {φ ψ : ActiveRound → Millis → Prop} {α : Type}

theorem shows_stable (hφ : Lasting φ) : FlightStable (.iteration e polls) fun w => w.Shows e φ := by
  intro w w' hr h
  obtain ⟨a, ha, h⟩ := h
  rw [World.active?_eq, ← hr.memory e rfl, ← World.active?_eq] at ha
  exact ⟨a, ha, hφ a hr.now h⟩

theorem Harmless.shows (h : Harmless w w') (hm : Move (.free env) i (.iteration e polls) w w')
    (hs : w.Shows e φ) : w'.Shows e φ := by
  obtain ⟨a, ha, hs⟩ := hs
  rw [World.active?_eq, ← h.memory e, ← World.active?_eq] at ha
  exact ⟨a, ha, hm.now ▸ hs⟩

/-- A program that does no harm keeps what the engine shows. -/
theorem harmless_flown (hφ : Lasting φ) {x : Action α} (hx : x.Keeps Harmless) (h : w.Shows e φ) :
    Flown env i (.iteration e polls) x (fun _ w' => w'.Shows e φ) w :=
  Flown.keeps hx id h (shows_stable hφ) fun hs hm h => hs.shows hm h

/-- An idle program, followed by one that may go on wherever the engine shows this. -/
theorem shows_bind {β : Type} (hφ : Lasting φ) {x : Action α} {f : α → Action β}
    {Q : β → World → Prop} (hx : Idle x) (h : w.Shows e φ)
    (hf : ∀ a w, w.Shows e φ → Flown env i (.iteration e polls) (f a) Q w) :
    Flown env i (.iteration e polls) (x >>= f) Q w :=
  Flown.idle_bind hx h (shows_stable hφ) hf

/-- **The active round is changed**: one in flight only when the time of its crash has come, and the time
of a crash is noted at a take-off alone. -/
theorem shows_updateActive (polls : Nat) {f : ActiveRound → ActiveRound} (h : w.Shows e φ)
    (hland : ∀ a, φ a w.now → a.phase = .rolling → ∀ c ∈ a.crashAtMs, a.phaseStartedAt + c ≤ w.now)
    (htaken : ∀ a, φ a w.now → (f a).crashAtMs.isSome = true → (f a).phase = .rolling ∨
      ((f a).id = a.id ∧ (f a).crashAtMs = a.crashAtMs)) (hψ : ∀ a, φ a w.now → ψ (f a) w.now) :
    FlightGuar (.iteration e polls) w (w.updateEngine e (Engine.updateActive f)) ∧
      (w.updateEngine e (Engine.updateActive f)).Shows e ψ := by
  obtain ⟨a, ha, h⟩ := h
  refine ⟨⟨fun e' he n a₀ ha₀ hroll c hc => ?_, fun e' he n a' ha' hc => ?_,
    fun hb hlost => .inl ⟨_, hb, .refl hlost⟩, fun hr ho => .inl ⟨_, hr, ho⟩⟩, f a, ?_, hψ a h⟩
  · obtain rfl := Option.some.inj he
    rcases updateActive_kept ha₀ with hkept | hactive
    · exact .inl hkept
    · obtain rfl := Option.some.inj (ha.symm.trans hactive)
      exact .inr (hland a h hroll c hc)
  · obtain rfl := Option.some.inj he
    rcases updateActive_cases ha' with hold | ⟨a₀, hactive, hrow, rfl⟩
    · exact .inr ⟨a', hold, rfl, rfl⟩
    · obtain rfl := Option.some.inj (ha.symm.trans hactive)
      exact (htaken a h hc).imp_right fun hsame => ⟨a, hrow, hsame⟩
  · rw [active?_updateActive, ha]
    rfl

/-! ### Opening betting -/

theorem Idle.harmless {x : Action α} (hx : Idle x) : x.Keeps Harmless :=
  hx.lossless.mono Lossless.harmless

/-- Creating a round does no harm. -/
theorem createRound_harmless : (GameEngine.createRound env e plugin).Keeps Harmless := by
  have hsession : (GameEngine.getOrCreateEngineSession e).Keeps Harmless := by
    refine Prog.Keeps.bind (Idle.findFirst _ _).harmless fun existing => ?_
    refine Prog.Keeps.bind Idle.now.harmless fun now => ?_
    split
    · trivial
    · exact Prog.Keeps.request fun _ w => ⟨fun _ => rfl, fun hb hlost => ⟨_, hb, .refl hlost⟩,
        fun hr ho => ⟨_, hr, ho⟩⟩
  have hround : ∀ (n : Nat) (f : Round → Round) (w : World), (∀ r, (f r).outcome = r.outcome) →
      Harmless w (w.updateRound n f) := fun n f w hf => (Paying.updateRound hf).toHarmless
  refine Prog.Keeps.bind hsession fun session => ?_
  refine Prog.Keeps.bind (Prog.Keeps.request fun _ w => ⟨fun _ => rfl,
    fun hb hlost => ⟨_, hb, .refl hlost⟩, fun {n r'} hr ho => ?_⟩) fun created => ?_
  · rcases Table.getElem?_concat_cases hr with hr | ⟨-, rfl⟩
    · exact ⟨_, hr, ho⟩
    · cases ho
  obtain ⟨n, round⟩ := created
  refine Prog.Keeps.bind (Prog.Keeps.catching (fun w => (Paying.refl w).toHarmless) _
    (Prog.Keeps.bind (Prog.Keeps.query (fun w => (Paying.refl w).toHarmless) _) fun tip =>
      Prog.Keeps.modify fun w => hround _ _ w fun _ => rfl)) fun _ => ?_
  exact Prog.Keeps.bind (Prog.Keeps.modify fun w => ⟨fun _ => rfl,
    fun hb hlost => ⟨_, hb, .refl hlost⟩, fun hr ho => ⟨_, hr, ho⟩⟩) fun _ => trivial

/-- **Opening betting.** -/
theorem openBetting_flown (h : w.Keyed e) :
    Flown env i (.iteration e polls) (GameEngine.openBetting env e plugin)
      (fun _ w' => ∃ active, w'.Shows e (Boarding active)) w := by
  refine Go.bind_iff.mpr ((Flown.later (Flown.of_harmless createRound_harmless)).mono
    fun created w ⟨_, hl⟩ => ?_)
  obtain ⟨n, round⟩ := created
  have hkeyed := hl.keyed h
  refine Go.bind_iff.mpr (Go.mono (Q := fun _ w' => ∃ active, w'.Shows e (Boarding active))
    (Go.request fun w₁ hr _ _ => ?_) fun windowMs w h => ?_)
  · obtain ⟨engine, hengine, -⟩ := hr.later.keyed hkeyed
    have hmemory : ∀ active : ActiveRound, (w₁.updateEngine e fun engine =>
        { engine with actives := engine.actives ++ [active] }).memory e = w₁.memory e ++ [active] := by
      intro active
      simp [World.memory, engine?_updateEngine, hengine]
    refine ⟨⟨fun e' he n a ha _ _ _ => .inl ?_, fun e' he n a' ha' hc => .inr ⟨a', ?_, rfl, rfl⟩,
      fun hb hlost => .inl ⟨_, hb, .refl hlost⟩, fun hr ho => .inl ⟨_, hr, ho⟩⟩, fun _ =>
        ⟨⟨n, round.nonce, round.serverSeed, round.serverSeedHash, round.clientSeed, .bettingOpen,
          w₁.now, ((w₁.engine? e).map fun engine => engine.cfg.bettingWindowMs).getD 0, none, none⟩,
          _, ?_, rfl, rfl⟩⟩
    · obtain rfl := Option.some.inj he
      rw [hmemory, List.getElem?_append_left (List.getElem?_eq_some_iff.mp ha).1, ha]
    · obtain rfl := Option.some.inj he
      rw [hmemory] at ha'
      rcases Table.getElem?_concat_cases ha' with hold | ⟨-, rfl⟩
      · exact hold
      · cases hc
    · rw [World.active?_eq, hmemory, List.getLast?_concat]
  · obtain ⟨active, h⟩ := h
    exact (harmless_flown boarding_lasting (Prog.Keeps.bind (Idle.engineEmit _ _).harmless fun _ =>
      (Idle.wait _ _).harmless) h).mono fun _ _ h => ⟨active, h⟩

/-! ### The flight -/

/-- **Taking off.** -/
theorem takeOff_flown (h : w.Shows e (Boarding active)) :
    Flown env i (.iteration e polls) (GameEngine.takeOff e plugin live active)
      (fun flight w' => ∀ outcome crashAtMs gameConfig,
        flight = some (outcome, crashAtMs, gameConfig) → w'.Shows e (Aloft active.id crashAtMs)) w := by
  refine Go.request fun w₁ hr _ _ => ?_
  have h₁ := shows_stable boarding_lasting hr h
  dsimp only
  split
  · exact ⟨(Paying.refl w₁).guar, fun _ _ _ _ hf => by cases hf⟩
  split
  · exact ⟨(Paying.refl w₁).guar, fun _ _ _ _ hf => by cases hf⟩
  · rename_i engine _ _ multiplier _
    have hchange := shows_updateActive polls (ψ := Aloft active.id
      (live.elapsedMsForMultiplier multiplier engine.gameConfig)) (f := fun a =>
        { a with
          phase := .rolling
          phaseStartedAt := w₁.now
          phaseDurationMs := live.elapsedMsForMultiplier multiplier engine.gameConfig
          outcome := some (plugin.computeOutcome (GameEngine.rngContext active) engine.gameConfig)
          crashAtMs := some (live.elapsedMsForMultiplier multiplier engine.gameConfig) }) h₁
      (fun a ha hroll => by rw [ha.2] at hroll; cases hroll) (fun _ _ _ => .inl rfl)
      fun a ha => ⟨⟨by rw [← ha.1], rfl, rfl⟩, Nat.le_refl _⟩
    refine ⟨hchange.1, fun _ outcome crashAtMs gameConfig hf => ?_⟩
    obtain ⟨-, rfl, -⟩ := by simpa only [Option.some.injEq, Prod.mk.injEq] using hf
    exact hchange.2

/-- **The flight goes on until the time of the crash**, as long as the loop finds its engine running. -/
theorem fly_flown (n : Nat) (lastTickAt : Millis) (h : w.Shows e (Aloft id crashAtMs)) :
    Flown env i (.iteration e polls) (GameEngine.fly env e live crashAtMs n lastTickAt)
      (fun _ w' => w'.Shows e (Crashed id crashAtMs)) w := by
  induction n generalizing lastTickAt w with
  | zero => exact Go.hang
  | succ n ih =>
      refine Go.bind_iff.mpr (Go.query (fun w => (Paying.refl w).guar) fun w₁ hr _ => ?_)
      obtain ⟨a, ha₁, ⟨hid, hphase, hcrash⟩, hstart⟩ := shows_stable aloft_lasting hr h
      refine Go.bind_iff.mpr (Go.lift fun w₂ hr₂ _ c found w₃ hrun hp => ?_)
      obtain ⟨rfl, rfl⟩ : w₂.engine? e = found ∧ w₂ = w₃ := by simpa using hrun
      have ha : w₂.active? e = some a := by
        rw [World.active?_eq, hr₂.memory e rfl, ← World.active?_eq, ha₁]
      have haloft : w₂.Shows e (Aloft id crashAtMs) :=
        ⟨a, ha, ⟨hid, hphase, hcrash⟩, Nat.le_trans hstart hr₂.now⟩
      obtain ⟨engine, hengine, hactive⟩ := Option.bind_eq_some_iff.mp ha
      refine ⟨(Paying.refl w₂).guar, fun _ => ?_⟩
      simp only [hengine, Option.bind_some, hactive]
      split
      · -- the loop stops only when the round is not in flight any more
        rename_i hstop
        refine ⟨a, ha, ⟨hid, hphase, hcrash⟩, ?_⟩
        by_contra hearly
        have hrunning := hp.2 engine hengine a hactive
          (decide_eq_true ⟨hphase, by simpa [hcrash] using hearly⟩)
        simp [hrunning, hphase] at hstop
      split
      · rename_i hdone
        refine ⟨a, ha, ⟨hid, hphase, hcrash⟩, ?_⟩
        calc a.phaseStartedAt + crashAtMs
            ≤ a.phaseStartedAt + (w₁.now - a.phaseStartedAt) := Nat.add_le_add_left hdone _
          _ = w₁.now := Nat.add_sub_cancel' hstart
          _ ≤ w₂.now := hr₂.now
      · have hpoll : ∀ (lastTickAt : Millis) (w : World), w.Shows e (Aloft id crashAtMs) →
            Flown env i (.iteration e polls) (do
              GameEngine.processAutoCashouts env e live
                (live.multiplierAtElapsedMs (w₁.now - a.phaseStartedAt) engine.gameConfig)
              Action.wait e 50
              GameEngine.fly env e live crashAtMs n lastTickAt)
              (fun _ w' => w'.Shows e (Crashed id crashAtMs)) w := by
          intro lastTickAt w h
          refine Go.bind_iff.mpr ((harmless_flown aloft_lasting
            ((Still.processAutoCashouts _ _).mono Lossless.harmless) h).mono fun _ w h => ?_)
          exact shows_bind aloft_lasting (Idle.wait _ _) h fun _ w h => ih lastTickAt h
        split
        · exact shows_bind aloft_lasting (Idle.engineEmit _ _) haloft fun _ w h => hpoll _ w h
        · exact hpoll _ _ haloft

/-- **Rolling a live round**: when it comes to its end, the time of the crash has come. -/
theorem rollLiveCrashAndReveal_flown {n : Nat} (h : w.Shows e (Boarding active)) :
    Flown env i (.iteration e polls)
      (GameEngine.rollLiveCrashAndReveal env e plugin live n active)
      (fun rolled w' => rolled = true → w'.Shows e (Down active.id)) w := by
  refine Go.bind_iff.mpr ((takeOff_flown h).mono fun flight w hflight => ?_)
  split
  · exact fun hrolled => by cases hrolled
  rename_i outcome crashAtMs gameConfig
  have haloft := hflight outcome crashAtMs gameConfig rfl
  have hnoted : Flown env i (.iteration e polls) (Prog.modify fun w => w.updateRound active.id fun r =>
      { r with state := .rolling, outcome := some outcome, drawnUnder := some gameConfig })
      (fun _ w' => w'.Shows e (Aloft active.id crashAtMs)) w := by
    refine Go.modify fun w₁ hr _ _ => ?_
    obtain ⟨a, ha, hrest⟩ := shows_stable aloft_lasting hr haloft
    refine ⟨.of_memory (fun _ => rfl) (fun hb hlost => .inl ⟨_, hb, .refl hlost⟩)
      fun {id r'} hr' ho => ?_, fun _ => ⟨a, ha, hrest⟩⟩
    simp only [World.updateRound, List.getElem?_modify] at hr'
    obtain ⟨r, hrow, rfl⟩ := Option.map_eq_some_iff.mp hr'
    by_cases hid : active.id = id
    · exact .inr ⟨e, rfl, a, ha, hrest.1.1.trans hid, by rw [hrest.1.2.2]; rfl⟩
    · simp only [if_neg hid] at ho
      exact .inl ⟨r, hrow, ho⟩
  refine Go.bind_iff.mpr (hnoted.mono fun _ w haloft => ?_)
  refine shows_bind aloft_lasting (Idle.engineEmit _ _) haloft fun _ w haloft => ?_
  refine Go.bind_iff.mpr ((fly_flown n 0 haloft).mono fun _ w hcrashed => ?_)
  have hlanded : Flown env i (.iteration e polls) (GameEngine.setActive e fun now a =>
      { a with phase := .result, phaseStartedAt := now })
      (fun _ w' => w'.Shows e (Down active.id)) w := by
    refine Go.modify fun w₁ hr _ _ => ?_
    have hchange := shows_updateActive polls (ψ := Down active.id)
      (f := fun a => { a with phase := .result, phaseStartedAt := w₁.now })
      (shows_stable crashed_lasting hr hcrashed)
      (fun a ha _ c hc => by obtain rfl := Option.some.inj (ha.1.2.2.symm.trans hc); exact ha.2)
      (fun _ _ _ => .inr ⟨rfl, rfl⟩) fun a ha => ⟨ha.1.1, by simp, by rw [ha.1.2.2]; rfl⟩
    exact ⟨hchange.1, fun _ => hchange.2⟩
  refine Go.bind_iff.mpr (hlanded.mono fun _ w hdown => ?_)
  have hround : ∀ w : World, Paying w (w.updateRound active.id fun r =>
      { r with state := .result, rolledAt := some w.now }) := fun w => .updateRound fun _ => rfl
  refine Go.bind_iff.mpr ((harmless_flown down_lasting (Prog.Keeps.modify fun w =>
    (hround w).toHarmless) hdown).mono fun _ w hdown => ?_)
  exact shows_bind down_lasting (Idle.engineEmit _ _) hdown fun _ w hdown _ => hdown

/-! ### Settling -/

/-- A call decides the bets of a round that is down. -/
theorem World.Shows.mayLose (h : w.Shows e (Down id)) : w.MayLose (.iteration e polls) id := by
  obtain ⟨a, ha, hdown⟩ := h
  exact ⟨a, ha, hdown⟩

/-- Settling a bet. -/
theorem settleOne_flown {gameCode : GameCode} {outcome : GameOutcome} {total : Int} {b : Nat × Bet}
    {bets : List (Nat × Bet)} (h : Deciding (.iteration e polls) id (b :: bets) w)
    (hc : b.2.cashoutPayoutMicro = none) :
    Flown env i (.iteration e polls) (GameEngine.settleOne env e plugin gameCode outcome total b)
      (fun _ w' => Deciding (.iteration e polls) id bets w') w := by
  refine Flown.idle_bind (Idle.engine e) h deciding_stable fun engine w h => ?_
  split
  · exact h.tail
  dsimp only
  split
  · exact Go.bind_iff.mpr ((closeLost_flown h hc).mono fun _ _ h => h)
  refine Flown.idle_bind (Idle.findUnique _ _) h deciding_stable fun session w h => ?_
  split
  · exact h.tail
  · exact Go.bind_iff.mpr ((paying_flown ((Still.payWin _ _ _ _).mono Resolving.paying)
      h.tail).mono fun _ _ h => h)

/-- **Settling a round that is down.** -/
theorem settle_flown (h : w.Shows e (Down id)) :
    Flown env i (.iteration e polls) (GameEngine.settle env e plugin) (fun _ _ => True) w := by
  refine Go.bind_iff.mpr (Go.query (fun w => (Paying.refl w).guar) fun w₁ hr _ => ?_)
  have h₁ := shows_stable down_lasting hr h
  split
  · trivial
  rename_i active hactive
  have hid : active.id = id := by
    obtain ⟨a, ha, hdown⟩ := h₁
    obtain rfl := Option.some.inj (hactive.symm.trans ha)
    exact hdown.1
  refine shows_bind down_lasting (Idle.findUnique _ _) h₁ fun round w h => ?_
  split
  · refine Go.bind_iff.mpr (Go.query (fun w => (Paying.refl w).guar) fun w₂ hr hs => ?_)
    have h₂ := shows_stable down_lasting hr h
    have hread : ∀ b ∈ Table.select
        (fun b => decide (b.roundId = active.id ∧ b.status = .accepted)) w₂.bets,
        w₂.bets[b.1]? = some b.2 ∧ b.2.roundId = id ∧ b.2.cashoutPayoutMicro = none := by
      intro b hb
      obtain ⟨hrow, hp⟩ := Table.mem_select.mp hb
      obtain ⟨hround, haccepted⟩ := of_decide_eq_true hp
      exact ⟨hrow, hround.trans hid, (hs.betOpen (List.mem_of_getElem? hrow) (.inr haccepted)).2⟩
    have hdeciding : Deciding (.iteration e polls) id (Table.select
        (fun b => decide (b.roundId = active.id ∧ b.status = .accepted)) w₂.bets) w₂ :=
      ⟨h₂.mayLose, fun b hb hc => ⟨b.2, (hread b hb).1, (hread b hb).2.1, hc⟩⟩
    refine Flown.idle_bind (Idle.findInOrder _ _) hdeciding deciding_stable fun preCashed w h => ?_
    refine Go.bind_iff.mpr (Go.fold (fun _ bets w => (∀ b ∈ bets, b.2.cashoutPayoutMicro = none) ∧
      Deciding (.iteration e polls) id bets w) ⟨fun b hb => (hread b hb).2.2, h⟩
      (fun _ b bets w ⟨hnone, h⟩ => (settleOne_flown h (hnone b List.mem_cons_self)).mono
        fun _ _ h => ⟨fun x hx => hnone x (List.mem_cons_of_mem b hx), h⟩) fun total w h => ?_)
    have hround : ∀ w : World, Paying w (w.updateRound active.id (Round.settle total w.now)) :=
      fun w => .updateRound fun _ => rfl
    refine Go.bind_iff.mpr ((paying_flown (Prog.Keeps.modify hround) h.2).mono fun _ w h => ?_)
    refine Go.bind_iff.mpr (Go.mono (Q := fun _ _ => True) (Go.modify fun w₃ hr _ _ =>
      ⟨?_, fun _ => trivial⟩) fun _ w _ => Flown.of_harmless (Idle.emitPoolUpdate _ _).harmless)
    obtain ⟨a, ha, hdown⟩ := h.mayLose.later hr.later hr.memory
    exact (shows_updateActive polls (φ := Down id) (ψ := Down id)
      (f := fun a => { a with phase := .settled }) ⟨a, ha, hdown⟩
      (fun a ha hroll => absurd hroll ha.2.1) (fun _ _ _ => .inr ⟨rfl, rfl⟩)
      fun a ha => ⟨ha.1, by simp, ha.2.2⟩).1
  · trivial

/-- **One turn of the loop of a live game.** -/
theorem iteration_flown (h : w.Keyed e) (hlive : (GameEngine.live? env e).isSome = true) :
    Flown env i (.iteration e polls) (GameEngine.iteration env e polls) (fun _ _ => True) w := by
  unfold GameEngine.iteration
  split
  · trivial
  rename_i plugin hplugin
  obtain ⟨live, hlive⟩ := Option.isSome_iff_exists.mp hlive
  rw [GameEngine.live?, hplugin, Option.bind_some] at hlive
  refine Go.bind_iff.mpr ((openBetting_flown h).mono fun _ w ⟨active, h⟩ => ?_)
  have hroll : Flown env i (.iteration e polls) (GameEngine.rollAndReveal env e plugin polls)
      (fun rolled w' => rolled = true → w'.Shows e (Down active.id)) w := by
    refine Go.bind_iff.mpr (Go.query (fun w => (Paying.refl w).guar) fun w₁ hr _ => ?_)
    have h₁ := shows_stable boarding_lasting hr h
    have hactive : (w₁.engine? e).bind Engine.active = some active := by
      obtain ⟨a, ha, rfl, -⟩ := h₁
      exact ha
    rw [hactive]
    dsimp only
    rw [hlive]
    exact rollLiveCrashAndReveal_flown h₁
  refine Go.bind_iff.mpr (hroll.mono fun rolled w hdown => ?_)
  split
  · refine Go.bind_iff.mpr ((settle_flown (hdown (by assumption))).mono fun _ w _ => ?_)
    exact Flown.of_harmless (Prog.Keeps.bind (Prog.Keeps.query (fun w => (Paying.refl w).toHarmless) _)
      fun _ => (Idle.wait _ _).harmless)
  · exact Flown.of_harmless (Idle.wait _ _).harmless

end Turn

end YantraRgs
