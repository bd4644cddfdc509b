import YantraRgs.Conduct.Checks
import YantraRgs.Conduct.Pace
import YantraRgs.Properties.LimitDecisions

/-! # Spins and their checks

A call that places a bet of a game without a flight is a spin. It looks for the latest bet of its
session in another round that was accepted or settled, and is refused when that one is too young. So it
creates its bet only when no rival counts, as long as the others and the clock leave it room.

* **`World.Rival`** — the bets that a spin may not follow yet; **`Unrivalled`** — what is left to it.
* **`spinRules`** — the rules for a spin; **`placeBet_spin`** — placing a bet keeps to them. -/

namespace YantraRgs

open Await

namespace World

variable (env : Env) (w : World)

/-- A bet of the session in another round, not rejected, which was placed so lately that no other may
follow yet. -/
def Rival (sessionId roundId : Nat) (b : Bet) : Prop :=
  b.sessionId = sessionId ∧ b.roundId ≠ roundId ∧ b.status ≠ .rejected ∧
    w.live env b.roundId = false ∧ w.now < b.placedAt + w.floorMs sessionId

/-- Bet `b'` does not follow bet `b` too fast. -/
def Apart (b b' : Bet) : Prop :=
  b.sessionId = b'.sessionId → b.roundId ≠ b'.roundId → b.status ≠ .rejected →
    w.live env b.roundId = false → b.placedAt + w.floorMs b.sessionId ≤ b'.placedAt

end World

/-- What the steps of a run leave to call `i`, which places a bet in a game without a flight and has not
created it yet: its engine makes no further round active; no rival becomes accepted or settled; and when
the call acts, no bet of the session was placed in another round within this millisecond, and no rival is
pending, failed or voided when the bet is created. -/
structure Unrivalled (env : Env) (e : EngineRef) (sessionId : Nat) (i : Nat) (own : Prop)
    (w w' : World) : Prop where
  active : ¬ w'.Exempt sessionId → w'.activeIds e = w.activeIds e
  counted : ¬ own → ∀ roundId ∈ (w.activeIds e).getLast?, ∀ n < w'.bets.length, ∀ b' ∈ w'.bets[n]?,
    w'.Rival env sessionId roundId b' → b'.counts = true → (w.bets[n]?).any Bet.counts = true
  instant : own → 0 < w.floorMs sessionId → ∀ roundId ∈ (w.activeIds e).getLast?, ∀ b ∈ w.bets,
    b.sessionId = sessionId → b.roundId ≠ roundId → b.status ≠ .rejected → b.placedAt ≠ w.now
  seen : own → ¬ NoBetYet i w' → ∀ roundId ∈ (w.activeIds e).getLast?, ∀ b ∈ w.bets,
    w.Rival env sessionId roundId b → b.counts = true

/-- The spins of a call: the engine and the parameters of a bet that it places in a game without a
flight. -/
def Call.spin? (env : Env) : Call → Option (EngineRef × PlaceBetParams)
  | .placeBet e params => if (GameEngine.live? env e).isSome then none else some (e, params)
  | _ => none

section Rivals

variable {env : Env} {w w' : World}

/-- A rival was one before. -/
theorem Paced.rival (h : Paced w w') {sessionId roundId : Nat} (hpos : 0 < w.floorMs sessionId)
    {b b' : Bet} (hl : b.Later b') (hb : w'.Rival env sessionId roundId b') :
    w.Rival env sessionId roundId b := by
  obtain ⟨hs, hr, hrej, hlive, hnow⟩ := hb
  rw [hl.sessionId] at hs
  rw [hl.roundId] at hr hlive
  rw [hl.placedAt, h.floorMs (World.isSome_of_floorMs hpos)] at hnow
  exact ⟨hs, hr, hl.not_rejected hrej, h.live hlive, Nat.lt_of_le_of_lt h.now hnow⟩

/-- Whether two bets follow each other too fast stays as it is. -/
theorem Paced.apart (h : Paced w w') {b b' c c' : Bet} (hs : (w.sessions[b.sessionId]?).isSome = true)
    (hb : b.Later b') (hc : c.Later c') (ha : w.Apart env b c) : w'.Apart env b' c' := by
  intro hsession hround hrej hlive
  rw [hb.sessionId, hc.sessionId] at hsession
  rw [hb.roundId, hc.roundId] at hround
  rw [hb.roundId] at hlive
  rw [hb.placedAt, hb.sessionId, hc.placedAt, h.floorMs hs]
  exact ha hsession hround (hb.not_rejected hrej) (h.live hlive)

end Rivals

/-! ## The rules for a spin -/

/-- What a call that places a bet may rely on, as far as the spins of its session go. -/
structure SpinRely (env : Env) (i : Nat) (e : EngineRef) (sessionId : Nat) (w w' : World) :
    Prop where
  paced : Paced w w'
  sole : NoBetYet i w → NoBetYet i w'
  active : NoBetYet i w → ¬ w'.Exempt sessionId → w'.activeIds e = w.activeIds e
  counted : NoBetYet i w → 0 < w.floorMs sessionId → ∀ roundId ∈ (w.activeIds e).getLast?,
    ∀ b' ∈ w'.bets, w'.Rival env sessionId roundId b' → b'.counts = true →
      ∃ b ∈ w.bets, b.Later b' ∧ b.counts = true

/-- A new bet does not follow an old one too fast. -/
def NewApart (env : Env) (w w' : World) : Prop :=
  ∀ b' ∈ w'.bets[w.bets.length]?, ∀ b ∈ w.bets, w.Apart env b b'

/-- **The rules for a call that places a bet** in a game without a flight. -/
def spinRules (env : Env) (i : Nat) (k : Call) : Rules World where
  inv := World.Dated
  permit w w' := Move (.free env) i k w w' ∧ ∀ spin ∈ k.spin? env, NoBetYet i w →
    Unrivalled env spin.1 spin.2.sessionId i True w w'
  rely w w' := ∀ spin ∈ k.spin? env, SpinRely env i spin.1 spin.2.sessionId w w'
  guar w w' := NoBetYet i w → NewApart env w w'

section Rules

variable {env : Env} {i : Nat} {e : EngineRef} {p : PlaceBetParams} {sessionId : Nat}
  {w w' w'' : World} {α β : Type}

theorem SpinRely.refl (w : World) : SpinRely env i e sessionId w w :=
  ⟨.refl w, id, fun _ _ => rfl, fun _ _ _ _ b hb _ hc => ⟨b, hb, .refl b, hc⟩⟩

/-- A session with a least time is not exempt. -/
theorem World.not_exempt (h : 0 < w.floorMs sessionId) : ¬ w.Exempt sessionId :=
  fun he => absurd he.2 (Nat.pos_iff_ne_zero.mp h)

theorem SpinRely.trans (h : SpinRely env i e sessionId w w')
    (h' : SpinRely env i e sessionId w' w'') : SpinRely env i e sessionId w w'' where
  paced := h.paced.trans h'.paced
  sole hi := h'.sole (h.sole hi)
  active hi he := (h'.active (h.sole hi) he).trans (h.active hi fun he' => he (h'.paced.exempt he'))
  counted hi hpos roundId hround b'' hb'' hrival hc := by
    have hfloor := h.paced.floorMs (World.isSome_of_floorMs hpos)
    have hactive := h.active hi (World.not_exempt (hfloor ▸ hpos))
    obtain ⟨b', hb', hl', hc'⟩ := h'.counted (h.sole hi) (hfloor ▸ hpos) roundId (hactive ▸ hround) b''
      hb'' hrival hc
    obtain ⟨b, hb, hl, hc⟩ := h.counted hi hpos roundId hround b' hb'
      (h'.paced.rival (hfloor ▸ hpos) hl' hrival) hc'
    exact ⟨b, hb, hl.trans hl', hc⟩

/-- A step that leaves the bets, the sessions and the engines' rounds alone leaves every spin room. -/
theorem Same.spinRely (h : Same w w') : SpinRely env i e sessionId w w' := by
  have hpaced : Paced w w' := ⟨h.later, h.now.ge, fun _ => by
    rw [World.floorMs, World.floorMs, h.sessions]⟩
  refine ⟨hpaced, fun hi b hb => hi b (h.bets ▸ hb), fun _ _ => ?_, fun _ _ _ _ b hb _ hc => ?_⟩
  · exact activeIds_of_tracked (tracked_engine h.engines e)
  · exact ⟨b, h.bets ▸ hb, .refl b, hc⟩

/-- Where no bet is new, none follows another too fast. -/
theorem NewApart.of_bets (h : w'.bets = w.bets) : NewApart env w w' := by
  intro b' hb'
  rw [h, List.getElem?_eq_none (Nat.le_refl _)] at hb'
  cases hb'

/-- Call `i` places a bet in a game without a flight, and may go on with a program. -/
abbrev Spin (env : Env) (i : Nat) (e : EngineRef) (p : PlaceBetParams) (x : Action α)
    (Q : α → World → Prop) (w : World) : Prop :=
  Go (spinRules env i (.placeBet e p)) i x Q w

variable (hspin : (GameEngine.live? env e).isSome = false)

include hspin in
theorem Call.spin?_placeBet : (Call.placeBet e p).spin? env = some (e, p) := by
  rw [Call.spin?, if_neg (by rw [hspin]; exact Bool.false_ne_true)]

/-- What others do not take away from a spin. -/
def SpinStable (env : Env) (i : Nat) (e : EngineRef) (p : PlaceBetParams) (R : World → Prop) : Prop :=
  ∀ ⦃w w' : World⦄, SpinRely env i e p.sessionId w w' → R w → R w'

include hspin in
theorem SpinStable.rely {R : World → Prop} (h : SpinStable env i e p R)
    (hr : (spinRules env i (.placeBet e p)).rely w w') (hR : R w) : R w' :=
  h (hr _ (Call.spin?_placeBet hspin)) hR

/-- Idle actions do not matter to a spin. -/
theorem spin_tolerant : Tolerant (spinRules env i (.placeBet e p)) where
  guar h _ := .of_bets h.bets
  rely h _ _ := h.spinRely

end Rules

/-! ## A spin is checked and placed -/

section Walk

variable {env : Env} {i : Nat} {e : EngineRef} {p : PlaceBetParams} {round : ActiveRound}
  {w w' : World} (hspin : (GameEngine.live? env e).isSome = false)

/-- A spin that is being checked, in the last round that its engine made active. -/
def Checking (i : Nat) (e : EngineRef) (p : PlaceBetParams) (round : ActiveRound) (w : World) : Prop :=
  NoBetYet i w ∧ (¬ w.Exempt p.sessionId → (w.activeIds e).getLast? = some round.id)

theorem checking_stable : SpinStable env i e p (Checking i e p round) := by
  intro w w' hr h
  refine ⟨hr.sole h.1, fun he => ?_⟩
  rw [hr.active h.1 he]
  exact h.2 fun he' => he (hr.paced.exempt he')

/-- The session of a spin was found, under the rules of its jurisdiction. -/
def Found (p : PlaceBetParams) (session : GameSession) (w : World) : Prop :=
  (w.sessions[p.sessionId]?).isSome = true ∧
    w.floorMs p.sessionId = (getJurisdiction session.jurisdiction).minSpinMs

theorem found_stable {session : GameSession} : SpinStable env i e p (Found p session) :=
  fun _ _ hr h => ⟨hr.paced.later.isSome_session h.1, (hr.paced.floorMs h.1).trans h.2⟩

/-- A spin that is being checked leaves its place to no rival that was not counted before. -/
theorem Checking.counted {session : GameSession} (h : Checking i e p round w)
    (hfound : Found p session w) (hr : SpinRely env i e p.sessionId w w')
    (hpos : 0 < w'.floorMs p.sessionId) {b' : Bet} (hb' : b' ∈ w'.bets)
    (hrival : w'.Rival env p.sessionId round.id b') (hc : b'.counts = true) :
    ∃ b ∈ w.bets, b.Later b' ∧ w.Rival env p.sessionId round.id b ∧ b.counts = true := by
  rw [hr.paced.floorMs hfound.1] at hpos
  obtain ⟨b, hb, hl, hc⟩ :=
    hr.counted h.1 hpos round.id (h.2 (World.not_exempt hpos)) b' hb' hrival hc
  exact ⟨b, hb, hl, hr.paced.rival hpos hl hrival, hc⟩

/-- What the check knows of the rivals that count: none is later than the bet it found, which is one
of the session in another round. -/
structure Seen (env : Env) (p : PlaceBetParams) (round : ActiveRound) (previous : Option Bet)
    (w : World) : Prop where
  latest : 0 < w.floorMs p.sessionId → ∀ b ∈ w.bets, w.Rival env p.sessionId round.id b →
    b.counts = true → ∃ last ∈ previous, b.placedAt ≤ last.placedAt
  row : ∀ last ∈ previous, ∃ b ∈ w.bets, b.placedAt = last.placedAt ∧ b.sessionId = p.sessionId ∧
    b.roundId ≠ round.id ∧ b.status.taken = true

/-- The state of a spin between its query and its verdict. -/
def Asked (env : Env) (i : Nat) (e : EngineRef) (p : PlaceBetParams) (round : ActiveRound)
    (session : GameSession) (previous : Option Bet) (w : World) : Prop :=
  Checking i e p round w ∧ Found p session w ∧ Seen env p round previous w

theorem asked_stable {session : GameSession} {previous : Option Bet} :
    SpinStable env i e p (Asked env i e p round session previous) := by
  intro w w' hr ⟨hcheck, hfound, hseen⟩
  refine ⟨checking_stable hr hcheck, found_stable hr hfound, fun hpos b' hb' hrival hc => ?_,
    fun last hlast => ?_⟩
  · obtain ⟨b, hb, hl, hrival, hc⟩ := hcheck.counted hfound hr hpos hb' hrival hc
    rw [hr.paced.floorMs hfound.1] at hpos
    obtain ⟨last, hlast, hle⟩ := hseen.latest hpos b hb hrival hc
    exact ⟨last, hlast, hl.placedAt.trans_le hle⟩
  · obtain ⟨b, hb, hat, hs, hround, ht⟩ := hseen.row last hlast
    obtain ⟨b', hb', hl⟩ := hr.paced.later.mem_bets hb
    exact ⟨b', hb', hl.placedAt.trans hat, hl.sessionId.trans hs, hl.roundId.symm ▸ hround, hl.taken ht⟩

/-- The state of a spin that was told the time: the bet it found is of an earlier millisecond. -/
def Timed (env : Env) (i : Nat) (e : EngineRef) (p : PlaceBetParams) (round : ActiveRound)
    (session : GameSession) (previous : Option Bet) (now : Millis) (w : World) : Prop :=
  Asked env i e p round session previous w ∧ now ≤ w.now ∧
    (0 < w.floorMs p.sessionId → ∀ last ∈ previous, last.placedAt < now)

theorem timed_stable {session : GameSession} {previous : Option Bet} {now : Millis} :
    SpinStable env i e p (Timed env i e p round session previous now) := by
  intro w w' hr ⟨hasked, hnow, hlast⟩
  refine ⟨asked_stable hr hasked, Nat.le_trans hnow hr.paced.now, fun hpos => ?_⟩
  rw [hr.paced.floorMs hasked.2.1.1] at hpos
  exact hlast hpos

/-- The state of a spin that passed its check: no rival counts. -/
def Passed (env : Env) (i : Nat) (e : EngineRef) (p : PlaceBetParams) (round : ActiveRound)
    (session : GameSession) (w : World) : Prop :=
  Checking i e p round w ∧ Found p session w ∧ (0 < w.floorMs p.sessionId → ∀ b ∈ w.bets,
    w.Rival env p.sessionId round.id b → b.counts = false)

theorem passed_stable {session : GameSession} :
    SpinStable env i e p (Passed env i e p round session) := by
  intro w w' hr ⟨hcheck, hfound, hnone⟩
  refine ⟨checking_stable hr hcheck, found_stable hr hfound, fun hpos b' hb' hrival => ?_⟩
  rw [← Bool.not_eq_true]
  intro hc
  obtain ⟨b, hb, hl, hrival, hc⟩ := hcheck.counted hfound hr hpos hb' hrival hc
  rw [hr.paced.floorMs hfound.1] at hpos
  rw [hnone hpos b hb hrival] at hc
  cases hc

/-- **A gap that the rules let through** is none, or the least time. -/
theorem minSpinMs_le {name : Currency → String} {input : JurisdictionCheck} {gap : Millis}
    (h : (checkJurisdictionRules name input).allowed = true)
    (hgap : input.timeSincePreviousBetMs = some gap) (hpos : 0 < gap) :
    (getJurisdiction input.jurisdiction).minSpinMs ≤ gap := by
  by_contra hlt
  rw [Nat.not_le] at hlt
  have hfast : 0 < (getJurisdiction input.jurisdiction).minSpinMs ∧
      (input.timeSincePreviousBetMs.any fun gap =>
        0 < gap ∧ gap < (getJurisdiction input.jurisdiction).minSpinMs) = true := by
    refine ⟨Nat.lt_trans hpos hlt, ?_⟩
    rw [hgap, Option.any_some, decide_eq_true_eq]
    exact ⟨hpos, hlt⟩
  unfold checkJurisdictionRules at h
  dsimp only at h
  rw [if_pos hfast] at h
  repeat' split at h
  all_goals cases h

/-- A bet that passes the limits passes the rules of its jurisdiction. -/
theorem checkRGLimits_returns (env : Env) (sessionId : Nat) (session : GameSession)
    (stakeMicro : Int) (betContext : BetContext) :
    (checkRGLimits env sessionId session stakeMicro betContext).Returns fun r => r.allowed = true →
      (env.checkJurisdictionRules (jurisdictionCheck session stakeMicro betContext)).allowed = true := by
  refine Prog.Returns.then fun now => ?_
  dsimp only
  split
  · exact fun h => Bool.noConfusion h
  · rename_i h
    rw [Bool.not_eq_true', Bool.not_eq_false] at h
    exact Prog.Returns.of_forall (fun _ _ => h) _

include hspin in
/-- **The query**: every bet that counts is not later than the one it finds. -/
theorem previousBet_spin {session : GameSession} (hcheck : Checking i e p round w)
    (hfound : Found p session w) : Spin env i e p (GameEngine.previousBet env e p.sessionId round.id)
      (fun previous w' => Asked env i e p round session previous w') w := by
  have hquery : GameEngine.previousBet env e p.sessionId round.id = Prog.query fun w =>
      (w.bets.filter fun b => b.sessionId = p.sessionId ∧ b.roundId ≠ round.id ∧ b.counts).getLast? := by
    unfold GameEngine.previousBet
    exact if_neg (by rw [← GameEngine.live?, hspin]; exact Bool.false_ne_true)
  rw [hquery]
  refine Go.query (fun _ _ => .of_bets rfl) fun w₁ hr hdated => ?_
  have hr := hr _ (Call.spin?_placeBet hspin)
  refine ⟨checking_stable hr hcheck, found_stable hr hfound, fun _ b hb hrival hc => ?_,
    fun last hlast => ?_⟩
  · exact hdated.le_last hb (decide_eq_true ⟨hrival.1, hrival.2.1, hc⟩)
  · obtain ⟨hmem, hf⟩ := List.mem_filter.mp (List.mem_of_getLast? hlast)
    obtain ⟨hs, hround, hc⟩ := of_decide_eq_true hf
    refine ⟨last, hmem, rfl, hs, hround, ?_⟩
    rcases of_decide_eq_true hc with hc | hc <;> rw [hc] <;> rfl

include hspin in
/-- **Reading the time**: no bet of another round was placed within this millisecond. -/
theorem now_spin {session : GameSession} {previous : Option Bet}
    (h : Asked env i e p round session previous w) : Spin env i e p Action.now
      (fun now w' => Timed env i e p round session previous now w') w := by
  refine Go.lift fun w₁ hr hdated c now w₂ hrun hpermit => ?_
  obtain ⟨rfl, rfl⟩ := Prod.mk.inj (Option.some.inj hrun)
  have hasked := asked_stable (hr _ (Call.spin?_placeBet hspin)) h
  refine ⟨fun _ => .of_bets rfl, fun _ => ⟨hasked, Nat.le_refl _, fun hpos last hlast => ?_⟩⟩
  obtain ⟨b, hb, hat, hs, hround, ht⟩ := hasked.2.2.row last hlast
  have hunrivalled := hpermit.2 _ (Call.spin?_placeBet hspin) hasked.1.1
  have hne : b.placedAt ≠ w₁.now :=
    hunrivalled.instant trivial hpos round.id (hasked.1.2 (World.not_exempt hpos)) b hb hs hround
      fun hrej => by rw [hrej] at ht; cases ht
  rw [← hat]
  exact lt_of_le_of_ne (hdated.now b hb) hne

include hspin in
/-- **The verdict**: where the spin is let through, no rival counts. -/
theorem checkRGLimits_spin {name : Currency → String} {session : GameSession} {previous : Option Bet}
    {now : Millis} (hname : env.checkJurisdictionRules = checkJurisdictionRules name)
    (h : Timed env i e p round session previous now w) {betContext : BetContext}
    (hgap : betContext.timeSincePreviousBetMs = previous.map fun b => now - b.placedAt) :
    Spin env i e p (checkRGLimits env p.sessionId session p.amountMicro betContext)
      (fun r w' => r.allowed = true → Passed env i e p round session w') w := by
  have hwalk : Spin env i e p (checkRGLimits env p.sessionId session p.amountMicro betContext)
      (fun _ w' => Timed env i e p round session previous now w') w :=
    spin_tolerant.idle (Idle.checkRGLimits _ _ _ _ _) h (timed_stable.rely hspin)
  have hwalk := hwalk.returns
    (checkRGLimits_returns env p.sessionId session p.amountMicro betContext)
  refine hwalk.mono fun r w ⟨hr, ⟨hcheck, hfound, hseen⟩, hnow, hearlier⟩ hallowed => ?_
  refine ⟨hcheck, hfound, fun hpos b hb hrival => ?_⟩
  rw [← Bool.not_eq_true]
  intro hc
  obtain ⟨last, hlast, hle⟩ := hseen.latest hpos b hb hrival hc
  have hlt := hearlier hpos last hlast
  -- the rules saw the gap to a bet that is not earlier than the rival
  have hjurisdiction := hr hallowed
  rw [hname] at hjurisdiction
  have hread : (jurisdictionCheck session p.amountMicro
      betContext).timeSincePreviousBetMs = some (now - last.placedAt) := by
    rw [jurisdictionCheck, hgap, hlast]
    rfl
  have hmin := minSpinMs_le hjurisdiction hread (Nat.sub_pos_of_lt hlt)
  have hfloor : w.floorMs p.sessionId ≤ now - last.placedAt := hfound.2.trans_le hmin
  have hold : b.placedAt + w.floorMs p.sessionId ≤ w.now :=
    calc b.placedAt + w.floorMs p.sessionId
        ≤ last.placedAt + (now - last.placedAt) := Nat.add_le_add hle hfloor
      _ = now := Nat.add_sub_cancel' hlt.le
      _ ≤ w.now := hnow
  exact absurd hrival.2.2.2.2 (Nat.not_lt.mpr hold)

include hspin in
/-- **The bet is created** only when no rival is left. -/
theorem takeStake_spin {session : GameSession} (h : Passed env i e p round session w) :
    Spin env i e p (GameEngine.takeStake env e p round) (fun _ _ => True) w := by
  have hk := Call.spin?_placeBet (p := p) hspin
  refine takeStake_go_of spin_tolerant (fun hr => (hr _ hk).paced.later) (fun hp => hp.1.later)
    (fun hnot hi => absurd hi hnot) (passed_stable.rely hspin)
    (fun howner h hdated hpermit hi b' hb' b hb hsession hround hrej hlive => ?_) h
  rename_i w₁ txUuid commissionMicro
  obtain ⟨hcheck, hfound, hnone⟩ := h
  have hcreated : ¬ NoBetYet i
      (w₁.addBet (GameEngine.newBet e p round.id commissionMicro txUuid w₁.now)) :=
    fun hi => hi _ (List.mem_append_right _ (List.mem_singleton_self _)) howner
  have hnew := Option.some.inj ((Table.getElem?_concat_length w₁.bets _).symm.trans hb')
  subst hnew
  change b.sessionId = p.sessionId at hsession
  change b.roundId ≠ round.id at hround
  change b.placedAt + w₁.floorMs b.sessionId ≤ w₁.now
  rw [hsession]
  by_contra hlate
  rw [Nat.not_le] at hlate
  have hrival : w₁.Rival env p.sessionId round.id b := ⟨hsession, hround, hrej, hlive, hlate⟩
  have hpos : 0 < w₁.floorMs p.sessionId :=
    Nat.pos_of_lt_add_right (Nat.lt_of_le_of_lt (hdated.now b hb) hlate)
  have hcounts := (hpermit.2 _ hk hi).seen trivial hcreated round.id
    (hcheck.2 (World.not_exempt hpos)) b hb hrival
  rw [hnone hpos b hb hrival] at hcounts
  cases hcounts

include hspin in
/-- **Checking the limits before taking the stake.** -/
theorem checkLimits_spin {name : Currency → String} {session : GameSession}
    (hname : env.checkJurisdictionRules = checkJurisdictionRules name)
    (hcheck : Checking i e p round w) (hfound : Found p session w) :
    Spin env i e p (GameEngine.checkLimits env e p round session) (fun _ _ => True) w := by
  refine Go.bind_iff.mpr ((previousBet_spin hspin hcheck hfound).mono fun previous w hasked => ?_)
  refine Go.bind_iff.mpr ((now_spin hspin hasked).mono fun now w htimed => ?_)
  refine Go.bind_iff.mpr ((checkRGLimits_spin hspin hname htimed rfl).mono fun rgCheck w hpassed => ?_)
  split
  · exact takeStake_spin hspin (hpassed (by assumption))
  · refine Go.bind_iff.mpr ((spin_tolerant.of_idle (Idle.rejectBet _ _ _)).mono fun _ w _ => ?_)
    split
    · exact Go.bind_iff.mpr (Go.modify fun w₁ _ _ _ => ⟨fun _ => .of_bets rfl, fun _ => trivial⟩)
    · trivial

include hspin in
/-- **Placing a bet** in a game without a flight. -/
theorem placeBet_spin {name : Currency → String}
    (hname : env.checkJurisdictionRules = checkJurisdictionRules name) (hi : NoBetYet i w) :
    Spin env i e p (GameEngine.placeBet env e p) (fun _ _ => True) w :=
  placeBet_go_of spin_tolerant (Checking i e p)
    (fun round session w => Checking i e p round w ∧ Found p session w)
    (fun hr hengine hactive => ⟨(hr _ (Call.spin?_placeBet hspin)).sole hi, fun _ =>
      getLast?_activeIds hengine hactive⟩)
    (checking_stable.rely hspin)
    (fun h hs => ⟨h, by rw [hs]; rfl, by rw [World.floorMs, hs]; rfl⟩)
    (fun hr h => ⟨checking_stable.rely hspin hr h.1, found_stable.rely hspin hr h.2⟩)
    fun h => checkLimits_spin hspin hname h.1 h.2

end Walk

end YantraRgs
