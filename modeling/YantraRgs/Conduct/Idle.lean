import YantraRgs.Conduct.Laws
import YantraRgs.Server.System

/-! # Parts of a call that leave the tables alone

Most actions of a call read, draw an identifier, emit, or note something the invariants do not look
at. Such parts keep whatever the call may rely on.

* **`Walk`** — a call may go on with a program under the rules of the server.
* **`Idle`** — every action of a program leaves the tracked part of the world alone.
* **`Walk.idle`** — an idle program keeps every stable fact.
* **`updateBet_move`** and its siblings — the change of a row is a move as soon as the row's step
  is one; a row that is not there is left alone. -/

namespace YantraRgs

open Await

variable {P : Policy} {i : Nat} {k : Call} {w w' : World} {α β : Type}

/-- The rules for call `i`, a `k`. -/
def rules (P : Policy) (i : Nat) (k : Call) : Rules World :=
  ⟨Sound P, Permit P k, Rely P i k, Move P i k⟩

/-- Call `i`, a `k`, may go on with a program and ends in `Q`. -/
abbrev Walk (P : Policy) (i : Nat) (k : Call) (p : Action α) (Q : α → World → Prop)
    (w : World) : Prop :=
  Go (rules P i k) i p Q w

/-- What others do not take away from call `i`, a `k`. -/
def Stable (P : Policy) (i : Nat) (k : Call) (R : World → Prop) : Prop :=
  ∀ ⦃w w' : World⦄, Rely P i k w w' → R w → R w'

/-- Every action of the program leaves the tracked part of the world alone. -/
abbrev Idle (p : Action α) : Prop := p.Keeps Same

theorem Same.refl (w : World) : Same w w := { Alike.refl w with actives := rfl }

/-- A change of an engine's memory that keeps the key, the active rounds and whether it runs. -/
theorem Same.updateEngine {f : Engine → Engine} (hf : ∀ engine, (f engine).tracked = engine.tracked)
    (ha : ∀ engine, (f engine).actives = engine.actives) (w : World) (e : EngineRef) :
    Same w (w.updateEngine e f) :=
  { Same.refl w with
    engines := Table.map_modify_of_eq hf _ _
    actives := Table.map_modify_of_eq ha _ _ }

/-- A change of a journal row that keeps its key. -/
theorem Same.updateWalletCall {f : WalletCall → WalletCall} (hf : ∀ c, (f c).key = c.key)
    (w : World) (id : Nat) : Same w (w.updateWalletCall id f) :=
  { Same.refl w with calls := Table.map_modify_of_eq hf _ _ }

/-- A journal row of a world with the same journal keys. -/
theorem Alike.call (h : Alike w w') {c : WalletCall} (hc : c ∈ w'.walletCalls) :
    ∃ c₀ ∈ w.walletCalls, c₀.key = c.key := by
  have hmem : c.key ∈ w'.walletCalls.map WalletCall.key := List.mem_map_of_mem hc
  rw [h.calls] at hmem
  exact List.mem_map.mp hmem

/-- Leaving the tables alone is within what every call may rely on. -/
theorem Alike.rely (h : Alike w w') : Rely P i k w w' := by
  have hwire : ∀ q, Untouched q w w' := fun q =>
    ⟨fun s hs _ => h.wire ▸ hs, fun c hc _ => h.call hc⟩
  have hactive : ∀ e, w'.activeIds e = w.activeIds e :=
    fun e => activeIds_of_tracked (tracked_engine h.engines e)
  refine ⟨h.later, fun _ => .of_eq h.rounds, fun hb _ => ⟨_, h.bets ▸ hb⟩, fun hb _ _ => h.bets.symm ▸ hb,
    fun _ hj => ⟨hwire _, h.jobs.symm ▸ hj⟩, fun _ _ _ hj _ => ⟨h.jobs.symm ▸ hj, hwire _⟩,
    fun _ e _ _ => ⟨fun hr _ => ⟨_, h.rounds ▸ hr, rfl, rfl, rfl⟩,
      fun _ _ _ hb ha _ _ _ _ => ⟨_, h.bets ▸ hb, ha⟩, fun _ => hactive e,
      fun hr _ _ _ => ⟨_, h.rounds ▸ hr⟩⟩, fun _ e _ hun => ?_,
    fun _ _ => by rw [World.storedConfigs, World.storedConfigs, h.configs], fun _ => .of_eq h.bets⟩
  refine ⟨⟨h.later.keyed hun.1, (hactive e).trans hun.2⟩, fun hr _ => h.rounds ▸ hr,
    fun hb _ => h.bets ▸ hb, fun _ _ hu => ?_, fun _ _ hjob => ?_⟩
  · rcases hu with ⟨s, hs, hrest⟩ | ⟨x, hx, hrest⟩
    · exact .inl ⟨s, h.wire ▸ hs, hrest⟩
    · exact .inr ⟨x, h.jobs ▸ hx, hrest⟩
  · obtain ⟨x, hx, hrest⟩ := hjob
    exact ⟨x, h.jobs ▸ hx, hrest⟩

/-- A fact that every later world keeps is stable. -/
theorem Stable.of_later {R : World → Prop} (h : ∀ {w w'}, Later w w' → R w → R w') :
    Stable P i k R := fun _ _ hr => h hr.later

theorem Stable.and {R R' : World → Prop} (h : Stable P i k R) (h' : Stable P i k R') :
    Stable P i k fun w => R w ∧ R' w := fun _ _ hr hR => ⟨h hr hR.1, h' hr hR.2⟩

/-- **An idle program keeps every stable fact.** -/
theorem Walk.idle {R : World → Prop} {p : Action α} (hp : Idle p) (hR : R w)
    (hstable : Stable P i k R) : Walk P i k p (fun _ w' => R w') w :=
  Go.keeps hp hR (fun hr => hstable hr) fun hR hs => ⟨.idle hs, hstable hs.rely hR⟩

/-- An idle program, followed by one that may go on wherever the stable fact holds. -/
theorem Walk.idle_bind {R : World → Prop} {p : Action α} {f : α → Action β}
    {Q : β → World → Prop} (hp : Idle p) (hR : R w) (hstable : Stable P i k R)
    (h : ∀ a w, R w → Walk P i k (f a) Q w) : Walk P i k (p >>= f) Q w :=
  Go.bind_iff.mpr ((Walk.idle hp hR hstable).mono fun a w' hw => h a w' hw)

/-- A call ends in a later world. -/
theorem Walk.later {p : Action α} {Q : α → World → Prop} (h : Walk P i k p Q w) :
    Walk P i k p (fun a w' => Q a w' ∧ Later w w') w :=
  Go.track h (.refl w) Later.trans (fun hr => hr.later) fun _ hg => hg.later

/-- An idle program may always go on. -/
theorem Walk.of_idle {p : Action α} (hp : Idle p) : Walk P i k p (fun _ _ => True) w :=
  Walk.idle (R := fun _ => True) hp trivial fun _ _ _ h => h

/-- A call answers its caller. -/
theorem answer_go {x : Answer} (h : P.agreeing → k.shows = true → x.Agrees) :
    Walk P i k (Action.answer x) (fun _ _ => True) w :=
  Go.request fun _ _ _ _ => ⟨.answer x h, fun _ => trivial⟩

/-- A call that shows no recomputed outcome may answer anything. -/
theorem Walk.then_answer {p : Action Answer} (h : Walk P i k p (fun _ _ => True) w)
    (hk : k.shows = false := by rfl) : Walk P i k (p >>= Action.answer) (fun _ _ => True) w :=
  Go.bind_iff.mpr (h.mono fun x _ _ => answer_go fun _ hshows => by
    rw [hk] at hshows
    cases hshows)

/-- A program whose end does not matter, followed by an idle one. -/
theorem Walk.then_idle {p : Action α} {f : α → Action β} (h : Walk P i k p (fun _ _ => True) w)
    (hf : ∀ a, Idle (f a)) : Walk P i k (p >>= f) (fun _ _ => True) w :=
  Go.bind_iff.mpr (h.mono fun a _ _ => Walk.of_idle (hf a))

/-! ## Idle programs -/

namespace Idle

theorem ret (a : α) : Idle (.ret a : Action α) := trivial

theorem now : Idle Action.now := Prog.Keeps.query Same.refl _

theorem newUuid (use : UuidUse) : Idle (Action.newUuid use) :=
  Prog.Keeps.request fun _ w => { Same.refl w with serial := Nat.le_succ _ }

theorem emit (room : Room) (x : Emission) : Idle (Action.emit room x) :=
  Prog.Keeps.modify fun w => { Same.refl w with }

theorem engine (e : EngineRef) : Idle (Action.engine e) := Prog.Keeps.query Same.refl _

theorem findMany {ρ : Type} (table : World → List ρ) (p : World → ρ → Bool) :
    Idle (Action.findMany table p) := by
  refine Prog.Keeps.lift fun i c w a w' h => ?_
  split at h
  · split at h
    · obtain rfl : w = w' := congrArg Prod.snd (Option.some.inj h)
      exact .refl w
    · cases h
  · cases h

theorem findSome {ρ : Type} (n : Nat) (table : World → List ρ) (p : World → ρ → Bool) :
    Idle (Action.findSome n table p) := by
  refine Prog.Keeps.lift fun i c w a w' h => ?_
  split at h
  · dsimp only at h
    split at h
    · obtain rfl : w = w' := congrArg Prod.snd (Option.some.inj h)
      exact .refl w
    · cases h
  · cases h

theorem findFirst {ρ : Type} (table : World → List ρ) (p : ρ → Bool) :
    Idle (Action.findFirst table p) := by
  refine Prog.Keeps.lift fun i c w a w' h => ?_
  split at h
  · split at h
    · split at h
      · obtain rfl : w = w' := congrArg Prod.snd (Option.some.inj h)
        exact .refl w
      · cases h
    · cases h
  · split at h
    · cases h
    · obtain rfl : w = w' := congrArg Prod.snd (Option.some.inj h)
      exact .refl w

theorem findInOrder {ρ : Type} (table : World → List ρ) (p : ρ → Bool) :
    Idle (Action.findInOrder table p) := Prog.Keeps.query Same.refl _

theorem findUnique {ρ : Type} (table : World → List ρ) (id : Nat) :
    Idle (Action.findUnique table id) := Prog.Keeps.query Same.refl _

theorem wait (e : EngineRef) (ms : Millis) : Idle (Action.wait e ms) := by
  unfold Action.wait
  split
  · trivial
  · exact Prog.Keeps.bind now fun _ => Prog.Keeps.block Same.refl _

end Idle

/-- What a query answers that looks for one row: a row as it is, which satisfies the predicate, or
nothing. -/
theorem findFirst_reads {ρ : Rules World} {β : Type} {table : World → List β} {p : β → Bool}
    {Q : Option (Nat × β) → World → Prop} (hrefl : ∀ w, ρ.guar w w)
    (h : ∀ w₁, ρ.rely w w₁ → ρ.inv w₁ → Q none w₁ ∧
      ∀ id r, (table w₁)[id]? = some r → p r = true → Q (some (id, r)) w₁) :
    Go ρ i (Action.findFirst table p) Q w := by
  refine Go.lift fun w₁ hr hi c found w₂ hrun _ => ?_
  split at hrun
  · split at hrun
    · rename_i id _ r hrow
      split at hrun
      · rename_i hp
        obtain ⟨rfl, rfl⟩ := Prod.mk.inj (Option.some.inj hrun)
        exact ⟨hrefl w₁, fun _ => (h w₁ hr hi).2 id r hrow hp⟩
      · cases hrun
    · cases hrun
  · split at hrun
    · cases hrun
    · obtain ⟨rfl, rfl⟩ := Prod.mk.inj (Option.some.inj hrun)
      exact ⟨hrefl w₁, fun _ => (h w₁ hr hi).1⟩

/-- **The phase of the active round is changed**, by a turn of the engine's loop. -/
theorem updateActive_go {e : EngineRef} {polls : Nat} {R : World → Prop}
    {f : World → ActiveRound → ActiveRound} (hf : ∀ w a, (f w a).tracked = a.tracked) (hR : R w)
    (hstable : Stable P i (.iteration e polls) R) (hkeyed : ∀ {w}, R w → w.Keyed e) :
    Walk P i (.iteration e polls)
      (Prog.modify fun w => w.updateEngine e (Engine.updateActive (f w))) (fun _ w' => R w') w :=
  Go.modify fun w₁ hr _ _ =>
    ⟨.phase e polls rfl (hkeyed (hstable hr hR)) _ (hf w₁),
      fun _ => hstable (Alike.updateActive (hf w₁) w₁ e).rely (hstable hr hR)⟩

/-! ## Changes of rows -/

theorem updateBet_move (id : Nat) {f : Bet → Bet} (h : ∀ b, w.bets[id]? = some b →
    w.Reaches k b.roundId ∧ BetStep P i k w b (f b)) : Move P i k w (w.updateBet id f) := by
  cases hb : w.bets[id]? with
  | none =>
      refine .idle { Same.refl w with bets := ?_ }
      exact Table.modify_eq_self hb
  | some b =>
      have hset : w.updateBet id f = { w with bets := w.bets.set id (f b) } := by
        rw [World.updateBet, Table.modify_eq_set hb]
      rw [hset]
      exact .bet id b _ hb (h b hb).1 (h b hb).2

theorem updateRound_move (id : Nat) {f : Round → Round} (hk : w.Reaches k id)
    (h : ∀ r, w.rounds[id]? = some r → RoundStep P k w id r (f r)) :
    Move P i k w (w.updateRound id f) := by
  cases hr : w.rounds[id]? with
  | none =>
      refine .idle { Same.refl w with rounds := ?_ }
      exact Table.modify_eq_self hr
  | some r =>
      have hset : w.updateRound id f = { w with rounds := w.rounds.set id (f r) } := by
        rw [World.updateRound, Table.modify_eq_set hr]
      rw [hset]
      exact .round id r _ hr hk (h r hr)

theorem updateJob_move (id : Nat) {f : PendingWalletJob → PendingWalletJob}
    (h : ∀ j, w.jobs[id]? = some j → JobStep P i w j (f j)) :
    Move P i k w (w.updateJob id f) := by
  cases hj : w.jobs[id]? with
  | none =>
      refine .idle { Same.refl w with jobs := ?_ }
      exact Table.modify_eq_self hj
  | some j =>
      have hset : w.updateJob id f = { w with jobs := w.jobs.set id (f j) } := by
        rw [World.updateJob, Table.modify_eq_set hj]
      rw [hset]
      exact .job id j _ hj (h j hj)

theorem updateSession_move (id : Nat) {f : GameSession → GameSession}
    (h : ∀ s, w.sessions[id]? = some s → SessionStep w id s (f s) ∧
      (f s).serverSeed = s.serverSeed) :
    Move P i k w (w.updateSession id f) := by
  cases hs : w.sessions[id]? with
  | none =>
      refine .idle { Same.refl w with sessions := ?_ }
      exact Table.modify_eq_self hs
  | some s =>
      have hset : w.updateSession id f = { w with sessions := w.sessions.set id (f s) } := by
        rw [World.updateSession, Table.modify_eq_set hs]
      rw [hset]
      exact .session id s _ w.serial hs (h s hs).1 (Nat.le_refl _) fun hne =>
        absurd (h s hs).2 hne

end YantraRgs
