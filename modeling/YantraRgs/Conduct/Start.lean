import YantraRgs.Conduct.Resume

/-! # Starting an engine keeps to the rules

The start goes through the unsettled rounds of its key, and in each of them through the bets that
are not resolved; at the end every bet of these rounds is recovered.

* **`resumeKnown_go`**, **`resumeUnknown_go`** — a round with a known outcome, and one without.
* **`resumeUnsettledRounds_go`**, **`start_go`** — all rounds, and the start of an engine. -/

namespace YantraRgs

open Await

variable {P : Policy} {i : Nat} {w w' w₀ : World} {env : Env} {e : EngineRef}
variable {plugin : GamePlugin} {r : Nat × Round} {rest : List (Nat × Round)}

/-! ## One round -/

/-- When the bets of a round were dealt with, none of them is accepted. -/
theorem Sweeping.noneAccepted (h : Sweeping P e w₀ r rest [] w)
    (hr : StuckRound P e w₀ r w) (hnot : r.1 ∉ rest.map Prod.fst) (hP : P.oneEngine) :
    w.NoneAccepted r.1 := by
  intro b hb hround hacc
  obtain ⟨n, hn⟩ := List.mem_iff_getElem?.mp hb
  have hsweep := h.resume.sweep hP
  obtain ⟨hrow, hstuck⟩ := hr.row hP
  obtain ⟨b₀, hb₀⟩ := hsweep.old hn (hround ▸ hrow) (key_of_stuck hstuck)
  obtain ⟨b', hb', hl⟩ := hsweep.later.bet hb₀
  rw [hn] at hb'
  obtain rfl := Option.some.inj hb'
  have hrid : b₀.roundId = r.1 := hl.roundId.symm.trans hround
  have hst : StuckBet w₀ e.key n b₀ r.2 := ⟨hb₀, hrid ▸ hrow, hstuck⟩
  have hnotin : ¬ (n ∈ ([] : List (Nat × Bet)).map Prod.fst ∨ Left w₀ rest n) := by
    rintro (hin | ⟨b₁, hb₁, hin⟩)
    · cases hin
    · rw [hb₀] at hb₁
      obtain rfl := Option.some.inj hb₁
      exact hnot (hrid ▸ hin)
  obtain ⟨b', hb', -, hne⟩ := hsweep.done hst hnotin fun _ hbusy => nomatch hbusy
  rw [hn] at hb'
  obtain rfl := Option.some.inj hb'
  exact hne hacc

/-- What is left after the bets of a round were dealt with. -/
theorem Sweeping.resumed (h : Sweeping P e w₀ r rest [] w) :
    Resume P e w₀ (Left w₀ rest) none w :=
  ⟨h.resume.keyed, fun hP => (h.resume.sweep hP).imp (fun _ hn => .inr hn) fun _ hn hnot => by
    rcases hn with hn | hn
    · cases hn
    · exact absurd hn hnot⟩

/-- What the loop over the rounds keeps: the bets of the rounds that are left are as they were, and
these are the rounds that are not settled. -/
structure Going (P : Policy) (e : EngineRef) (w₀ : World) (rest : List (Nat × Round)) (w : World) :
    Prop where
  resume : Resume P e w₀ (Left w₀ rest) none w
  listed : P.oneEngine → Listed e rest w

theorem going_stable : Stable P i (.start e) (Going P e w₀ rest) :=
  fun _ _ hr h => ⟨resume_stable hr h.resume, listed_stable hr h.listed⟩

/-- What holds before a round is resumed. -/
structure Turn (P : Policy) (e : EngineRef) (w₀ : World) (r : Nat × Round)
    (rest : List (Nat × Round)) (w : World) : Prop extends Going P e w₀ (r :: rest) w where
  stuck : StuckRound P e w₀ r w

theorem turn_stable : Stable P i (.start e) (Turn P e w₀ r rest) :=
  fun _ _ hr h => ⟨going_stable hr h.toGoing, h.stuck.later hr.later⟩

/-- A program that leaves the rounds alone leaves those that are listed. -/
theorem listed_go {α : Type} {p : Action α} {Q : α → World → Prop}
    (h : Walk P i (.start e) p Q w) (hp : p.Keeps SameRounds)
    (hl : P.oneEngine → Listed e rest w) :
    Walk P i (.start e) p (fun a w' => Q a w' ∧ (P.oneEngine → Listed e rest w')) w :=
  Go.carry h hp hl (fun hr h => listed_stable hr h) fun hg hs h hP => (h hP).same hg.later hs

/-- **Resuming a round with a known outcome.** -/
theorem resumeKnown_go {outcome : GameOutcome}
    (hplugin : P.env.getPlugin e.key.gameCode = some plugin)
    (hfit : Fit P w₀ e.key) (hout : r.2.outcome = some outcome)
    (hnot : r.1 ∉ rest.map Prod.fst) (h : Turn P e w₀ r rest w) :
    Walk P i (.start e) (GameEngine.resumeKnown e plugin r outcome)
      (fun _ w' => Going P e w₀ rest w') w := by
  refine Go.bind_iff.mpr ((findMany_go h turn_stable).mono fun bets w ⟨h, hs, hnd, hrows⟩ => ?_)
  have hmem : ∀ b ∈ bets, w.bets[b.1]? = some b.2 ∧ b.2.roundId = r.1 ∧
      (b.2.status = .accepted ∨ b.2.status = .failed) := fun b hb => by
    have := (hrows b.1 b.2).mp hb
    simpa using this
  have hloop : Sweeping P e w₀ r rest bets w := by
    refine ⟨h.resume.take h.stuck.row (fun b hb => ⟨(hmem b hb).1, (hmem b hb).2.1⟩) ?_,
      fun b hb => ?_, hnd⟩
    · -- a bet that the query leaves out is neither accepted nor failed
      intro n x hx hround hn
      have hout' : ¬ (x.status = .accepted ∨ x.status = .failed) := fun ho =>
        hn (List.mem_map_of_mem (f := Prod.fst) (a := (n, x)) ((hrows n x).mpr ⟨hx, by
          simp [hround, ho]⟩))
      exact ⟨fun ha => hout' (.inl ha), fun hf => absurd (.inr hf) hout'⟩
    · obtain ⟨hrow, hround, ho⟩ := hmem b hb
      exact h.resume.unresolved hs h.stuck hrow hround ho
  have hk : w.OutcomeKnown r.1 := h.stuck.known (by rw [hout]; rfl)
  have hfold : Walk P i (.start e)
      (Prog.fold (GameEngine.resumeBet e plugin r outcome) 0 bets)
      (fun _ w' => Sweeping P e w₀ r rest [] w' ∧ w'.OutcomeKnown r.1 ∧
        (P.oneEngine → Listed e (r :: rest) w')) w :=
    Go.fold (fun _ bets w => Sweeping P e w₀ r rest bets w ∧ w.OutcomeKnown r.1 ∧
        (P.oneEngine → Listed e (r :: rest) w)) ⟨hloop, hk, h.listed⟩
      (fun _ _ _ _ ⟨h, hk, hlisted⟩ => (listed_go
        (resumeBet_go hplugin hout hfit.durable hnot h hk (.of_listed hlisted)).later
        (Still.resumeBet plugin r outcome _ _) hlisted).mono
          fun _ _ ⟨⟨h', hl⟩, hlisted'⟩ => ⟨h', hl.outcomeKnown hk, hlisted'⟩) fun _ _ h => h
  refine Go.bind_iff.mpr (hfold.later.mono fun total w' ⟨⟨hdone, _, hlisted⟩, hl⟩ => ?_)
  have hst := h.stuck.later hl
  refine Go.modify fun w₁ hr _ _ => ?_
  have hst₁ := hst.later hr.later
  have hlisted₁ := listed_stable hr hlisted
  have hdone₁ : Sweeping P e w₀ r rest [] w₁ :=
    ⟨resume_stable hr hdone.resume, (fun b hb => nomatch hb), List.nodup_nil⟩
  have hmove := updateRound_move (P := P) (i := i) (k := .start e) (w := w₁) r.1
    (f := Round.settle total w₁.now) hst₁.roundOf fun x _ =>
      .settle x total _ rfl fun hP _ => hdone₁.noneAccepted hst₁ hnot hP
  exact ⟨hmove, fun _ => ⟨hdone₁.resumed.next hmove.later rfl rfl rfl rfl
    (.updateRound _ _ (fun _ => rfl) fun _ => rfl),
    fun hP => (hlisted₁ hP).settle hnot hmove.later fun _ => rfl⟩⟩

/-- What holds while the bets of a voided round are voided. -/
structure Voiding (P : Policy) (e : EngineRef) (w₀ : World) (r : Nat × Round)
    (rest : List (Nat × Round)) (w : World) : Prop where
  resume : Resume P e w₀ (Left w₀ (r :: rest)) none w
  listed : P.oneEngine → Listed e rest w
  stuck : StuckRound P e w₀ r w
  voided : w.RoundSettled r.1

theorem voiding_stable : Stable P i (.start e) (Voiding P e w₀ r rest) := fun _ _ hr h =>
  ⟨resume_stable hr h.resume, listed_stable hr h.listed, h.stuck.later hr.later,
    hr.later.roundSettled h.voided⟩

/-- **Voiding a round whose outcome is not known.** -/
theorem resumeUnknown_go (hfit : Fit P w₀ e.key) (hout : r.2.outcome = none) (hnot : r.1 ∉ rest.map Prod.fst)
    (h : Turn P e w₀ r rest w) :
    Walk P i (.start e) (GameEngine.resumeUnknown r)
      (fun _ w' => Going P e w₀ rest w') w := by
  have hvoid : Walk P i (.start e) (Prog.modify fun w => w.updateRound r.1 (Round.void w.now))
      (fun _ w' => Voiding P e w₀ r rest w') w := by
    refine Go.modify fun w₁ hr _ _ => ?_
    have h₁ := turn_stable hr h
    have hmove := updateRound_move (P := P) (i := i) (k := .start e) (w := w₁) r.1
      (f := Round.void w₁.now) h₁.stuck.roundOf fun x _ => .void x _ rfl
    obtain ⟨x, hx, -⟩ := h₁.stuck.roundOf
    have hwritten : (w₁.updateRound r.1 (Round.void w₁.now)).rounds[r.1]? =
        some (x.void w₁.now) := by
      simp only [World.updateRound, Table.modify_eq_set hx, Table.getElem?_set_self_of_some hx]
    refine ⟨hmove, fun _ => ⟨h₁.resume.next hmove.later rfl rfl rfl rfl
      (.updateRound _ _ (fun _ => rfl) fun _ => rfl),
      fun hP => (h₁.listed hP).settle hnot hmove.later fun _ => rfl,
      h₁.stuck.later hmove.later, _, hwritten, rfl⟩⟩
  refine Go.bind_iff.mpr (hvoid.mono fun _ w hR => ?_)
  refine Go.bind_iff.mpr ((findMany_go hR voiding_stable).mono
    fun bets w hread => ?_)
  obtain ⟨h, hs, hnd, hrows⟩ := hread
  have hmem : ∀ b ∈ bets, w.bets[b.1]? = some b.2 ∧ b.2.roundId = r.1 ∧
      b.2.status = .accepted := fun b hb => by
    have := (hrows b.1 b.2).mp hb
    simpa using this
  have hloop : Sweeping P e w₀ r rest bets w := by
    refine ⟨h.resume.take h.stuck.row (fun b hb => ⟨(hmem b hb).1, (hmem b hb).2.1⟩) ?_,
      fun b hb => ?_, hnd⟩
    · intro n x hx hround hn
      refine ⟨fun ha => hn ?_, fun _ => by rw [hout]; rfl⟩
      exact List.mem_map_of_mem (f := Prod.fst) (a := (n, x)) ((hrows n x).mpr ⟨hx, by
        simp [hround, ha]⟩)
    · obtain ⟨hrow, hround, ha⟩ := hmem b hb
      exact h.resume.unresolved hs h.stuck hrow hround (.inl ha)
  refine Go.each (fun bets w => Sweeping P e w₀ r rest bets w ∧ w.RoundSettled r.1 ∧
    (P.oneEngine → Listed e rest w) ∧ ∀ b ∈ bets, b.2.status = .accepted)
    ⟨hloop, h.voided, h.listed, fun b hb => (hmem b hb).2.2⟩
    (fun b bets w h => ?_) fun _ h => ⟨h.1.resumed, h.2.2.1⟩
  obtain ⟨h, hover, hlisted, ha⟩ := h
  have hgo := (voidBet_go (P := P) (i := i) (.inl (List.mem_cons_self ..)) h.resume
    (h.open' b (List.mem_cons_self ..)) (ha b (List.mem_cons_self ..)) hover hout
      hfit.unpaid).later
  refine (listed_go hgo ((Still.voidBet r b).mono fun h => h.toSameRounds) hlisted).mono fun _ w' h' => ?_
  obtain ⟨⟨h', hl⟩, hlisted'⟩ := h'
  exact ⟨h.next hnot hl h', hl.roundSettled hover, hlisted',
    fun x hx => ha x (List.mem_cons_of_mem _ hx)⟩

/-- **Resuming one round.** -/
theorem resumeRound_go (hplugin : P.env.getPlugin e.key.gameCode = some plugin)
    (hfit : Fit P w₀ e.key)
    (hnot : r.1 ∉ rest.map Prod.fst) (h : Turn P e w₀ r rest w) :
    Walk P i (.start e) (GameEngine.resumeRound e plugin r)
      (fun _ w' => Going P e w₀ rest w') w := by
  unfold GameEngine.resumeRound
  split
  · exact resumeKnown_go hplugin hfit (by assumption) hnot h
  · exact resumeUnknown_go hfit (by assumption) hnot h

/-! ## All rounds -/

/-- The rounds of the key are those that were there when the start was called. -/
structure Beginning (P : Policy) (e : EngineRef) (w₀ w : World) : Prop where
  resume : Resume P e w₀ (fun _ => True) none w
  rounds : P.oneEngine → ∀ {id : Nat} {r' : Round}, w.rounds[id]? = some r' → r'.key = e.key →
    w₀.rounds[id]? = some r'

theorem beginning_stable : Stable P i (.start e) (Beginning P e w₀) := fun _ _ hr h =>
  ⟨resume_stable hr h.resume, fun hP _ _ hr' hk =>
    h.rounds hP ((hr.resume hP e rfl ((h.resume.sweep hP).unused)).rounds hr' hk) hk⟩

/-- Nothing was done when the start was called. -/
theorem Beginning.start (hk : w₀.Keyed e) (hun : P.oneEngine → w₀.Unused e) :
    Beginning P e w₀ w₀ where
  resume := ⟨hk, fun hP => ⟨.refl _, hun hP, fun hb _ _ => ⟨_, hb⟩,
    fun hr _ => ⟨_, hr, rfl⟩, fun hb _ _ _ => hb, fun hs _ =>
    ⟨hs.bet, fun _ hu => hu⟩, (fun hb => nomatch hb), fun _ hn _ => absurd trivial hn,
    fun _ _ hj => hj⟩⟩
  rounds _ _ _ hr _ := hr

/-- **Resuming every unsettled round of the engine's key.** -/
theorem resumeUnsettledRounds_go (hplugin : P.env.getPlugin e.key.gameCode = some plugin)
    (hfit : Fit P w₀ e.key)
    (h : Beginning P e w₀ w) :
    Walk P i (.start e) (GameEngine.resumeUnsettledRounds e plugin)
      (fun _ w' => Going P e w₀ [] w') w := by
  refine Go.bind_iff.mpr ((findMany_go h beginning_stable).mono
    fun stuck w ⟨h, _, hnd, hrows⟩ => ?_)
  have hresume : Resume P e w₀ (Left w₀ stuck) none w := by
    refine ⟨h.resume.keyed, fun hP => (h.resume.sweep hP).imp (fun _ _ => trivial)
      fun {n b₀ r₀} hst _ hnot => absurd ⟨b₀, hst.bet, ?_⟩ hnot⟩
    -- the round of the bet is still the one it was, and so the query hands it out
    obtain ⟨r', hr', hl⟩ := (h.resume.sweep hP).later.round hst.round
    have hkey : r'.key = e.key := hl.key.trans (key_of_stuck hst.stuck)
    have hrow := h.rounds hP hr' hkey
    rw [hst.round] at hrow
    obtain rfl := Option.some.inj hrow
    exact List.mem_map_of_mem (f := Prod.fst) (a := (b₀.roundId, r₀))
      ((hrows _ _).mpr ⟨hr', hst.stuck⟩)
  have hstuck : ∀ r ∈ stuck, StuckRound P e w₀ r w := fun r hr => by
    obtain ⟨hrow, hp⟩ := (hrows r.1 r.2).mp hr
    have hkey := key_of_stuck hp
    exact ⟨⟨r.2, hrow, hkey⟩, fun ho => ⟨r.2, hrow, ho⟩, fun hP => ⟨h.rounds hP hrow hkey, hp⟩⟩
  have hlisted : P.oneEngine → Listed e stuck w := fun hP =>
    ⟨(h.resume.sweep hP).unused, fun id x => hrows id x⟩
  refine Go.each (fun rest w => Going P e w₀ rest w ∧
    (rest.map Prod.fst).Nodup ∧ ∀ r ∈ rest, StuckRound P e w₀ r w) ⟨⟨hresume, hlisted⟩, hnd, hstuck⟩
    (fun r rest w ⟨h, hnd, hstuck⟩ => ?_) fun _ h => h.1
  have hnodup := List.nodup_cons.mp hnd
  refine (resumeRound_go hplugin hfit hnodup.1 ⟨h, hstuck r (List.mem_cons_self ..)⟩).later.mono
    fun _ _ ⟨h', hl⟩ => ⟨h', hnodup.2, fun x hx => (hstuck x (List.mem_cons_of_mem _ hx)).later hl⟩

/-- **Starting an engine.** -/
theorem start_go (hk : w₀.Keyed e) (hun : P.oneEngine → w₀.Unused e)
    (hfit : Fit P w₀ e.key)
    (hfocus : ∀ v, P.focus = some (i, v) → v = w₀) :
    Walk P i (.start e) (GameEngine.start P.env e) (fun _ _ => True) w₀ := by
  unfold GameEngine.start
  split
  · trivial
  rename_i plugin hplugin
  refine Walk.idle_bind (Idle.engine e) (Beginning.start hk hun) beginning_stable
    fun engine w h => ?_
  split
  · trivial
  refine Go.bind_iff.mpr ((resumeUnsettledRounds_go hplugin hfit h).mono fun _ w h => ?_)
  refine Go.modify fun w₁ hr _ _ => ?_
  have h₁ := going_stable hr h
  refine ⟨.begin e rfl h₁.resume.keyed ?_ fun hP => (h₁.listed hP).allSettled, fun _ => trivial⟩
  intro v e' hv he' hP
  obtain rfl := hfocus v hv
  obtain rfl : e = e' := by simpa using he'
  have hsweep := h₁.resume.sweep hP
  refine ⟨fun {id b₀ r₀} hb₀ hr₀ hst => ?_,
    fun hb₀ hr₀ hst hskip hj => hsweep.quiet ⟨hb₀, hr₀, hst⟩ hskip hj, hsweep.closed,
    fun {id b} hb hround => ?_, hsweep.rounds⟩
  · obtain ⟨b, hb, hrec, -⟩ := hsweep.done ⟨hb₀, hr₀, hst⟩ (fun ⟨_, _, hin⟩ => nomatch hin)
      fun _ hbusy => nomatch hbusy
    exact ⟨b, hb, hrec⟩
  · obtain ⟨r, hrow, hk⟩ := hround
    obtain ⟨r₀, hr₀, -⟩ := hsweep.rounds hrow hk
    obtain ⟨r', hr', hl⟩ := hsweep.later.round hr₀
    rw [hrow] at hr'
    obtain rfl := Option.some.inj hr'
    exact hsweep.old hb hr₀ (hl.key.symm.trans hk)

end YantraRgs
