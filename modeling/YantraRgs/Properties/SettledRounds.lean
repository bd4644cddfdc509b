import YantraRgs.Properties.Runs

/-! # Settled rounds are complete

A round that is marked settled has no accepted bet left, and none of its bets is accepted later: settling
takes up every bet that was accepted before, and a bet is accepted whenever the operator's answer
arrives, whatever became of its round.

* **`InTime`** — the condition on the runs.
* **`Complete`** — the invariant.
* **`settled_complete`** — the property; `accepted_late` — a run in which the answer arrives when the
  round is over. -/

namespace YantraRgs

open Await

variable {env : Env} {P : Policy} {i : Nat} {k : Call} {w w' : World} {p q : State}

/-- A bet is accepted only while its round is open for bets or rolls. -/
def World.AcceptsInTime (w w' : World) : Prop :=
  ∀ id < w.bets.length, ∀ b ∈ w.bets[id]?, ∀ b' ∈ w'.bets[id]?, b'.status = .accepted →
    b.status = .accepted ∨ ∃ r ∈ w.rounds[b.roundId]?, r.state.takesBets = true

/-- A round is voided only when it has no accepted bets. -/
def World.VoidsEmpty (w w' : World) : Prop :=
  ∀ id < w.rounds.length, ∀ r ∈ w.rounds[id]?, ∀ r' ∈ w'.rounds[id]?, r'.state = .voided →
    r.state = .voided ∨ w.NoneAccepted id

/-- **One engine per key, bets accepted while their rounds take bets or roll, and no round with accepted
bets voided.** -/
def InTime (p : State) (x : Happening) (q : State) : Prop :=
  OneEngine p x ∧ p.world.AcceptsInTime q.world ∧ p.world.VoidsEmpty q.world

/-- The policy of such runs. -/
def Policy.timely (env : Env) : Policy :=
  { Policy.free env with oneEngine := True, inTime := True }

theorem inTime_meets : Meets (.timely env) InTime where
  permit h _ :=
    { accepted := fun _ {n b b'} hb hb' hacc => by
        have hlt := (List.getElem?_eq_some_iff.mp hb).1
        refine (h.2.1 n hlt b hb b' hb' hacc).imp_right ?_
        rintro ⟨r, hr, ht⟩
        exact ⟨r, hr, ht⟩
      voided := fun _ {n r r'} hr hr' hv =>
        h.2.2 n (List.getElem?_eq_some_iff.mp hr).1 r hr r' hr' hv
      locked := fun h => h.elim
      journalled := fun h => h.elim
      redrawn := fun h => h.elim
      priced := fun h => h.elim }
  engines _ {_ _ _} h := h.1 _ rfl
  countedUp _ h := h.elim
  fit _ := ⟨fun _ h => h.elim, fun _ h => h.elim⟩
  closed _ h := h.elim
  crashes h := h.elim
  configs h := h.elim
  verifies h := h.elim
  focus _ _ h := nomatch h

/-! ## The invariant -/

/-- **A settled round is complete.** -/
structure Complete (w : World) : Prop where
  none : ∀ {id : Nat} {r : Round}, w.rounds[id]? = some r → r.settled = true → w.NoneAccepted id
  still : ∀ {id : Nat} {r : Round}, w.rounds[id]? = some r → r.settled = true →
    r.state.takesBets = false
  voided : ∀ {id : Nat} {r : Round}, w.rounds[id]? = some r → r.state = .voided → r.settled = true

/-- The invariant is about rounds and bets alone. -/
theorem Complete.congr (h : Complete w) (hr : w'.rounds = w.rounds) (hb : w'.bets = w.bets) :
    Complete w' where
  none h₁ h₂ b hmem := h.none (hr ▸ h₁) h₂ b (hb ▸ hmem)
  still h₁ := h.still (hr ▸ h₁)
  voided h₁ := h.voided (hr ▸ h₁)

/-- A bet of a settled round is not accepted by an action that is in time. -/
theorem Complete.bet {id : Nat} {b b' : Bet} (h : Complete w) (hb : w.bets[id]? = some b)
    (hround : b'.roundId = b.roundId)
    (hacc : b'.status = .accepted → b.status = .accepted ∨
      ∃ r, w.rounds[b.roundId]? = some r ∧ r.state.takesBets = true) :
    Complete { w with bets := w.bets.set id b' } where
  none {n r} hr hs x hx hxr hxs := by
    rcases Table.mem_set_cases hx with rfl | hx
    · rw [hround] at hxr
      subst hxr
      rcases hacc hxs with hold | ⟨r', hr', ht⟩
      · exact h.none hr hs b (List.mem_of_getElem? hb) rfl hold
      · obtain rfl := Option.some.inj (Eq.trans hr.symm hr')
        rw [h.still hr hs] at ht
        cases ht
    · exact h.none hr hs x hx hxr hxs
  still := h.still
  voided := h.voided

/-- A step of a round that keeps to the conditions leaves a settled round complete. -/
theorem Complete.round {id : Nat} {r r' : Round} (h : Complete w) (hP : P.oneEngine) (hT : P.inTime)
    (hr : w.rounds[id]? = some r) (hs : RoundStep P k w id r r')
    (hv : r'.state = .voided → r.state = .voided ∨ w.NoneAccepted id) :
    Complete { w with rounds := w.rounds.set id r' } := by
  have hself : (r'.settled = true → w.NoneAccepted id ∧ r'.state.takesBets = false) ∧
      (r'.state = .voided → r'.settled = true) := by
    cases hs with
    | note =>
        have hstill : r.settled = true → w.NoneAccepted id ∧ r.state.takesBets = false := fun hset =>
          ⟨h.none hr hset, h.still hr hset⟩
        exact ⟨hstill, fun hstate => h.voided (r := r) hr hstate⟩
    | roll outcome drawnUnder hk hs =>
        refine ⟨fun hset => ?_, fun hstate => by cases hstate⟩
        have hopen : r.settled = false := hs hP
        rw [show r.settled = true from hset] at hopen
        cases hopen
    | result => exact ⟨fun hset => ⟨h.none hr hset, rfl⟩, fun hstate => by cases hstate⟩
    | settle total now hk hn =>
        exact ⟨fun _ => ⟨hn hP hT, rfl⟩, fun _ => rfl⟩
    | void now hk =>
        refine ⟨fun _ => ⟨?_, rfl⟩, fun _ => rfl⟩
        exact (hv rfl).elim (fun hvoid => h.none hr (h.voided hr hvoid)) fun hn => hn
  have hcases : ∀ {n : Nat} {x : Round}, (w.rounds.set id r')[n]? = some x →
      (n = id ∧ x = r') ∨ w.rounds[n]? = some x := by
    intro n x hx
    rcases Table.getElem?_set_cases hx with ⟨rfl, rfl, -⟩ | ⟨-, hx⟩
    · exact .inl ⟨rfl, rfl⟩
    · exact .inr hx
  refine ⟨fun {n x} hx hset => ?_, fun {n x} hx hset => ?_, fun {n x} hx hstate => ?_⟩
  · rcases hcases hx with ⟨rfl, rfl⟩ | hx
    · exact (hself.1 hset).1
    · exact h.none hx hset
  · rcases hcases hx with ⟨rfl, rfl⟩ | hx
    · exact (hself.1 hset).2
    · exact h.still hx hset
  · rcases hcases hx with ⟨rfl, rfl⟩ | hx
    · exact hself.2 hstate
    · exact h.voided hx hstate

/-- **Every action that is in time keeps the invariant.** -/
theorem Complete.move (h : Complete w) (hm : Move P i k w w') (hperm : Permit P k w w')
    (hP : P.oneEngine) (hT : P.inTime) : Complete w' := by
  cases hm with
  | idle hsame => exact h.congr hsame.rounds hsame.bets
  | addRound r hnew =>
      refine ⟨fun {n x} hx hset => ?_, fun {n x} hx hset => ?_, fun {n x} hx hstate => ?_⟩
      · rcases Table.getElem?_concat_cases hx with hx | ⟨rfl, rfl⟩
        · exact h.none hx hset
        · rw [hnew.settled] at hset
          cases hset
      · rcases Table.getElem?_concat_cases hx with hx | ⟨rfl, rfl⟩
        · exact h.still hx hset
        · rw [hnew.settled] at hset
          cases hset
      · rcases Table.getElem?_concat_cases hx with hx | ⟨rfl, rfl⟩
        · exact h.voided hx hstate
        · rw [hnew.state] at hstate
          cases hstate
  | round id r r' hr hk hstep =>
      refine h.round hP hT hr hstep fun hstate => hperm.voided hT hr ?_ hstate
      exact Table.getElem?_set_self_of_some hr
  | addBet b hnew =>
      refine ⟨fun {n r} hr hset x hx hround hacc => ?_, h.still, h.voided⟩
      rcases List.mem_append.mp hx with hx | hx
      · exact h.none hr hset x hx hround hacc
      · obtain rfl := List.mem_singleton.mp hx
        rw [hnew.status] at hacc
        cases hacc
  | bet id b b' hb hk hstep =>
      refine h.bet hb hstep.later.roundId fun hacc => hperm.accepted hT hb ?_ hacc
      exact Table.getElem?_set_self_of_some hb
  | _ => exact h.congr rfl rfl

theorem Complete.initial (operators : List OperatorRow) (credentials : List OperatorCredential)
    (gameConfigs : List OperatorGameConfig) :
    Complete (State.initial operators credentials gameConfigs).world where
  none h := by cases h
  still h := by cases h
  voided h := by cases h

/-! ## Runs -/

/-- Every step of a run in time keeps the invariant. -/
theorem Complete.step {x : Happening} (h : Complete p.world)
    (hx : Stepped (.timely env) p x q) : Complete q.world := by
  cases hx with
  | move i c t _ _ _ hperm hm => exact h.move hm hperm trivial trivial
  | outer y _ hy => exact h.congr (outside_outer hy).rounds (outside_outer hy).bets
  | stay hw => exact hw ▸ h

/-- **Settled rounds are complete.** In every run of any calls in any order in which engines of one key
do not run together, every bet is accepted while its round takes bets or rolls, and no round with
accepted bets is voided: once a round is settled, none of its bets is accepted, then and later. -/
theorem settled_complete (h : History env InTime p) (hr : (server env).Run InTime p q) {id : Nat}
    {r : Round} (hround : p.world.rounds[id]? = some r) (hset : r.settled = true) :
    q.world.NoneAccepted id := by
  obtain ⟨operators, credentials, gameConfigs, hp⟩ := h
  have hmeets : Meets (.timely env) InTime := inTime_meets
  have hstart := Ready.initial hmeets operators credentials gameConfigs
  obtain ⟨hready, hcomplete⟩ := run_invariant (J := fun p => Complete p.world) hstart hp
    (Complete.initial operators credentials gameConfigs) fun _ _ _ _ _ _ _ hx hJ => hJ.step hx
  obtain ⟨-, hlater, hcomplete'⟩ := run_invariant
    (J := fun q => Later p.world q.world ∧ Complete q.world) hready hr ⟨.refl _, hcomplete⟩
    fun _ _ _ _ _ _ _ hx hJ => ⟨hJ.1.trans hx.later, hJ.2.step hx⟩
  obtain ⟨r', hr', hl⟩ := hlater.round hround
  exact hcomplete'.none hr' (hl.settled hset)

/-! ## Two runs -/

instance (w w' : World) : Decidable (w.AcceptsInTime w') :=
  inferInstanceAs (Decidable (∀ id < w.bets.length, ∀ b ∈ w.bets[id]?, ∀ b' ∈ w'.bets[id]?,
    b'.status = .accepted → b.status = .accepted ∨
      ∃ r ∈ w.rounds[b.roundId]?, r.state.takesBets = true))

instance (w : World) (id : Nat) : Decidable (w.NoneAccepted id) :=
  inferInstanceAs (Decidable (∀ b ∈ w.bets, b.roundId = id → b.status ≠ .accepted))

instance (w w' : World) : Decidable (w.VoidsEmpty w') :=
  inferInstanceAs (Decidable (∀ id < w.rounds.length, ∀ r ∈ w.rounds[id]?, ∀ r' ∈ w'.rounds[id]?,
    r'.state = .voided → r.state = .voided ∨ w.NoneAccepted id))

instance (p : State) (x : Happening) (q : State) : Decidable (InTime p x q) :=
  inferInstanceAs (Decidable (OneEngine p x ∧ p.world.AcceptsInTime q.world ∧
    p.world.VoidsEmpty q.world))

namespace Sample

/-- A bet of the dice game is placed (call 3), and the operator is asked for the stake. -/
def asked : List Happening :=
  boot 0 0 0 ++ .call (.iteration (engine 0 0) 1) :: run 1 8 ++
    .call (.createSession ⟨0, .named "ann", 0, 0, "INTL", .real, none, .none, none⟩) ::
    run 2 2 ++ .call (bet 0 (.dice .low)) :: run 3 13

/-- The operator answers, and the bet is accepted. -/
def answered : List Happening :=
  .env (.deliver 0 ⟨true, .ok, some 90⟩ none) :: .run 3 (.reply 0) :: run 3 6

/-- The bet is accepted in time, wins and is credited, and its round is settled. -/
def settledInTime : List Happening :=
  opened 0 (.dice .low) .none 13 ++ run 1 21 ++
    .env (.deliver 1 ⟨true, .ok, some 110⟩ none) :: .run 1 (.reply 1) :: run 1 12

end Sample

/-- A bet that is accepted in time is settled with its round. -/
theorem settled_complete_dice : ∃ p, History Sample.site InTime p ∧
    (∃ r, p.world.rounds[0]? = some r ∧ r.settled = true) ∧ p.world.bets ≠ [] ∧
      p.world.NoneAccepted 0 := by
  have h : Sample.shows InTime Sample.settledInTime (fun p =>
      decide (∃ r ∈ p.world.rounds[0]?, r.settled = true) && decide (p.world.bets ≠ [])) = true := by
    decide +kernel
  obtain ⟨p, hp, hv⟩ := Sample.history_of_shows h
  simp only [Bool.and_eq_true, decide_eq_true_eq] at hv
  obtain ⟨⟨r, hr, hset⟩, hbets⟩ := hv
  exact ⟨p, hp, ⟨r, hr, hset⟩, hbets, settled_complete hp .start hr hset⟩

/-- **A bet that is accepted late**: the operator answers when its round is settled. -/
theorem accepted_late : ∃ p, History Sample.site Anything p ∧
    ∃ r, p.world.rounds[0]? = some r ∧ r.settled = true ∧ ¬ p.world.NoneAccepted 0 := by
  have h : Sample.shows Anything (Sample.asked ++ Sample.run 1 14 ++ Sample.answered) (fun p =>
      decide (∃ r ∈ p.world.rounds[0]?, r.settled = true ∧ ¬ p.world.NoneAccepted 0)) = true := by
    decide +kernel
  obtain ⟨p, hp, hv⟩ := Sample.history_of_shows h
  obtain ⟨r, hr, hset, hlate⟩ := of_decide_eq_true hv
  exact ⟨p, hp, r, hr, hset, hlate⟩

end YantraRgs
