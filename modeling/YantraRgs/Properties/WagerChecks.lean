import YantraRgs.Conduct.Checks
import YantraRgs.Conduct.Pace
import YantraRgs.Properties.LimitDecisions

/-! # Wagers and their checks

A call that places a bet adds up the stakes of the session, and those of the player since midnight, over
the bets that were accepted or settled; it is refused when its own stake lifts a sum above its cap. So it
creates its bet only where the caps leave it room, as long as the others do not use that room meanwhile.

* **`Account`** — what the wagers of a session are counted against.
* **`Unshared`** — what is left to a call while it checks.
* **`wagerRules`** — the rules for it; **`placeBet_wager`** — placing a bet keeps to them. -/

namespace YantraRgs

open Await

/-- What wagers are added up over. -/
inductive WagerScope
  | session
  | day

/-- What the wagers of a session are counted against: the session and its player, and the caps. -/
structure Account where
  sessionId : Nat
  operatorId : OperatorId
  playerRef : PlayerRef
  limits : RGLimits

namespace Account

/-- The cap on the wagers in a scope. -/
def cap (a : Account) : WagerScope → Option Int
  | .session => a.limits.sessionWagerMicro
  | .day => a.limits.dailyWagerMicro

/-- Whether a bet is in a scope, on the day of `now`. -/
def covers (a : Account) (now : Millis) (b : Bet) : WagerScope → Bool
  | .session => b.sessionId = a.sessionId
  | .day => b.operatorId = a.operatorId ∧ b.playerRef = a.playerRef ∧ dayStart now ≤ b.placedAt

end Account

/-- The account of a session. -/
def GameSession.account (id : Nat) (s : GameSession) : Account :=
  ⟨id, s.operatorId, s.playerRef, s.rgLimits⟩

/-- The stake of a bet is taken, or may yet be. -/
def Bet.weighs (b : Bet) : Bool := b.status ≠ .rejected ∧ b.status ≠ .voided

namespace World

variable (w : World)

/-- The account of a session that exists. -/
def account? (sessionId : Nat) : Option Account :=
  (w.sessions[sessionId]?).map (GameSession.account sessionId)

/-- No stake is negative. -/
def Unsigned : Prop := ∀ b ∈ w.bets, 0 ≤ b.amountMicro

/-- The stakes in a scope, over the bets that satisfy `f`. -/
def staked (a : Account) (scope : WagerScope) (f : Bet → Bool) : Int :=
  Table.total (fun b => a.covers w.now b scope && f b) Bet.amountMicro w.bets

end World

/-- What the steps of a run leave to call `i`, which places a bet and has not created it yet: no bet of
its account becomes accepted or settled; and when the bet is created, every bet of the account whose
stake is taken, or may yet be, is accepted or settled, and the stake is not negative. -/
structure Unshared (p : PlaceBetParams) (i : Nat) (own : Prop) (w w' : World) : Prop where
  counted : ¬ own → ∀ a ∈ w.account? p.sessionId, ∀ scope, (a.cap scope).isSome = true →
    ∀ n < w'.bets.length, ∀ b' ∈ w'.bets[n]?, a.covers w'.now b' scope = true → b'.counts = true →
      (w.bets[n]?).any Bet.counts = true
  seen : own → ¬ NoBetYet i w' → ∀ a ∈ w.account? p.sessionId, ∀ scope, (a.cap scope).isSome = true →
    ∀ b ∈ w.bets, a.covers w.now b scope = true → b.weighs = true → b.counts = true
  stake : own → ¬ NoBetYet i w' → 0 ≤ p.amountMicro

/-- The bet that a call places. -/
def Call.placing? : Call → Option PlaceBetParams
  | .placeBet _ p => some p
  | _ => none

/-! ## What stays of an account -/

section Accounts

variable {P : Policy} {i : Nat} {k : Call} {w w' : World} {a : Account} {scope : WagerScope}

theorem dayStart_mono {now now' : Nat} (h : now ≤ now') : dayStart now ≤ dayStart now' := by
  show now - now % 86400000 ≤ now' - now' % 86400000
  omega

/-- A bet stays in its scope. -/
theorem Bet.Later.covers {b b' : Bet} (h : b.Later b') (now : Millis) :
    a.covers now b' scope = a.covers now b scope := by
  have hop : b'.operatorId = b.operatorId := congrArg Prod.fst h.identity
  have hplayer : b'.playerRef = b.playerRef := congrArg Prod.fst h.terms
  cases scope with
  | session => simp only [Account.covers, h.sessionId]
  | day => simp only [Account.covers, hop, hplayer, h.placedAt]

theorem Bet.Later.amountMicro {b b' : Bet} (h : b.Later b') : b'.amountMicro = b.amountMicro :=
  congrArg (fun t => t.2.2.2.1) h.terms

/-- A bet of a later day's scope is one of an earlier day's. -/
theorem Account.covers_mono {now now' : Millis} (h : now ≤ now') {b : Bet}
    (hb : a.covers now' b scope = true) : a.covers now b scope = true := by
  cases scope with
  | session => exact hb
  | day =>
      simp only [Account.covers, decide_eq_true_eq] at hb ⊢
      exact ⟨hb.1, hb.2.1, Nat.le_trans (dayStart_mono h) hb.2.2⟩

theorem SessionStep.account {id : Nat} {s s' : GameSession} (h : SessionStep w id s s') :
    s'.account id = s.account id := by
  cases h <;> rfl

/-- **Every action keeps the accounts.** -/
theorem Move.account (h : Move P i k w w') {id : Nat} (ha : w.account? id = some a) :
    w'.account? id = some a := by
  obtain ⟨s, hs, rfl⟩ := Option.map_eq_some_iff.mp ha
  obtain ⟨s', hs', -⟩ := h.later.session hs
  rcases h.session_origin hs' with ⟨s₀, hs₀, hstep⟩ | ⟨hid, -⟩
  · obtain rfl := Option.some.inj (hs.symm.trans hs₀)
    rcases hstep with rfl | ⟨hstep, -⟩
    · rw [World.account?, hs', Option.map_some]
    · rw [World.account?, hs', Option.map_some, hstep.account]
  · -- a new session was not there before
    rw [hid, List.getElem?_eq_none (Nat.le_refl _)] at hs
    cases hs

/-- So does every step. -/
theorem Stepped.account {p q : State} {x : Happening} (h : Stepped P p x q) {id : Nat}
    (ha : p.world.account? id = some a) : q.world.account? id = some a := by
  cases h with
  | move i c t hx ht hl hp h => exact h.account ha
  | outer y hx h => rw [World.account?, (outside_outer h).sessions]; exact ha
  | stay h => exact h ▸ ha

end Accounts

/-! ## The rules for a wager -/

/-- What a call that places a bet may rely on, as far as the wagers of its account go. -/
structure WagerRely (i : Nat) (sessionId : Nat) (w w' : World) : Prop where
  later : Later w w'
  now : w.now ≤ w'.now
  unsigned : w.Unsigned → w'.Unsigned
  sole : NoBetYet i w → NoBetYet i w'
  account : ∀ a, w.account? sessionId = some a → w'.account? sessionId = some a
  counted : NoBetYet i w → ∀ a, w.account? sessionId = some a → ∀ scope, (a.cap scope).isSome = true →
    ∀ (n : Nat) (b' : Bet), w'.bets[n]? = some b' → a.covers w'.now b' scope = true →
      b'.counts = true → ∃ b, w.bets[n]? = some b ∧ b.counts = true

/-- A new bet has room under the caps of its account. -/
def NewCapped (w w' : World) : Prop :=
  ∀ b' ∈ w'.bets[w.bets.length]?, 0 ≤ b'.amountMicro ∧ ∀ a ∈ w.account? b'.sessionId, ∀ scope,
    ∀ cap ∈ a.cap scope, w.staked a scope Bet.weighs + b'.amountMicro ≤ cap

/-- **The rules for a call that places a bet**, as far as wagers go. -/
def wagerRules (env : Env) (i : Nat) (k : Call) : Rules World where
  inv := World.Unsigned
  permit w w' := Move (.free env) i k w w' ∧ ∀ p ∈ k.placing?, NoBetYet i w →
    Unshared p i True w w'
  rely w w' := ∀ p ∈ k.placing?, WagerRely i p.sessionId w w'
  guar w w' := NoBetYet i w → NewCapped w w'

section Rules

variable {env : Env} {i : Nat} {e : EngineRef} {p : PlaceBetParams} {sessionId : Nat}
  {w w' w'' : World} {a : Account} {scope : WagerScope}

theorem WagerRely.refl (w : World) : WagerRely i sessionId w w :=
  ⟨.refl w, Nat.le_refl _, id, id, fun _ h => h, fun _ _ _ _ _ _ b hb _ hc => ⟨b, hb, hc⟩⟩

theorem WagerRely.trans (h : WagerRely i sessionId w w') (h' : WagerRely i sessionId w' w'') :
    WagerRely i sessionId w w'' where
  later := h.later.trans h'.later
  now := Nat.le_trans h.now h'.now
  unsigned hw := h'.unsigned (h.unsigned hw)
  sole hi := h'.sole (h.sole hi)
  account a ha := h'.account a (h.account a ha)
  counted hi a ha scope hcap n b'' hb'' hcovers hc := by
    obtain ⟨b', hb', hc'⟩ := h'.counted (h.sole hi) a (h.account a ha) scope hcap n b'' hb'' hcovers hc
    obtain ⟨c, hc'', hl⟩ := h'.later.bet hb'
    obtain rfl := Option.some.inj (hb''.symm.trans hc'')
    rw [hl.covers] at hcovers
    exact h.counted hi a ha scope hcap n b' hb' (Account.covers_mono h'.now hcovers) hc'

/-- A step that leaves the bets and the sessions alone leaves every account alone. -/
theorem Same.wagerRely (h : Same w w') : WagerRely i sessionId w w' where
  later := h.later
  now := h.now.ge
  unsigned hw b hb := hw b (h.bets ▸ hb)
  sole hi b hb := hi b (h.bets ▸ hb)
  account a ha := by
    rw [World.account?, h.sessions]
    exact ha
  counted _ _ _ _ _ _ b hb _ hc := ⟨b, h.bets ▸ hb, hc⟩

/-- Where no bet is new, none is too much. -/
theorem NewCapped.of_bets (h : w'.bets = w.bets) : NewCapped w w' := by
  intro b' hb'
  rw [h, List.getElem?_eq_none (Nat.le_refl _)] at hb'
  cases hb'

theorem wager_tolerant : Tolerant (wagerRules env i (.placeBet e p)) where
  guar h _ := .of_bets h.bets
  rely h _ _ := h.wagerRely

/-- The stakes that were counted do not become more for a call that checks. -/
theorem WagerRely.staked_le (h : WagerRely i sessionId w w') (hi : NoBetYet i w)
    (ha : w.account? sessionId = some a) (hw : w.Unsigned) (hcap : (a.cap scope).isSome = true) :
    w'.staked a scope Bet.counts ≤ w.staked a scope Bet.counts := by
  refine Table.total_le (fun n b' hb' hcounted => ?_) hw
  simp only [Bool.and_eq_true] at hcounted
  obtain ⟨b, hb, hc⟩ := h.counted hi a ha scope hcap n b' hb' hcounted.1 hcounted.2
  obtain ⟨c, hc', hl⟩ := h.later.bet hb
  obtain rfl := Option.some.inj (hb'.symm.trans hc')
  rw [hl.covers] at hcounted
  refine ⟨b, hb, ?_, hl.amountMicro.symm⟩
  rw [Account.covers_mono h.now hcounted.1, hc]
  rfl

end Rules

/-! ## A wager is checked and placed -/

section Walk

variable {env : Env} {i : Nat} {e : EngineRef} {p : PlaceBetParams} {w w' : World} {a : Account}
  {scope : WagerScope}

/-- Call `i` places a bet, and may go on with a program. -/
abbrev Wager (env : Env) (i : Nat) (e : EngineRef) (p : PlaceBetParams) {α : Type} (x : Action α)
    (Q : α → World → Prop) (w : World) : Prop :=
  Go (wagerRules env i (.placeBet e p)) i x Q w

/-- A wager that is being checked against an account, since the time `start`. -/
structure Weighing (i : Nat) (sessionId : Nat) (a : Account) (start : Millis) (w : World) : Prop where
  sole : NoBetYet i w
  account : w.account? sessionId = some a
  unsigned : w.Unsigned
  start : start ≤ w.now

theorem Weighing.stable {start : Millis} (hr : WagerRely i p.sessionId w w')
    (h : Weighing i p.sessionId a start w) : Weighing i p.sessionId a start w' :=
  ⟨hr.sole h.sole, hr.account a h.account, hr.unsigned h.unsigned, Nat.le_trans h.start hr.now⟩

/-- The stakes that count leave room to another one. -/
def Roomy (a : Account) (scope : WagerScope) (stakeMicro : Int) (w : World) : Prop :=
  ∀ cap ∈ a.cap scope, w.staked a scope Bet.counts + stakeMicro ≤ cap

theorem Roomy.stable {start : Millis} {stakeMicro : Int} (hr : WagerRely i p.sessionId w w')
    (h : Weighing i p.sessionId a start w) (hroom : Roomy a scope stakeMicro w) :
    Roomy a scope stakeMicro w' := by
  intro cap hcap
  have hle := hr.staked_le h.sole h.account h.unsigned (Option.isSome_iff_exists.mpr ⟨cap, hcap⟩)
  have hold := hroom cap hcap
  omega

/-- A pair of caps over a selection of bets lets a stake through when there is room in the scope. -/
theorem checkCapsOver_wager (scope : WagerScope) {start : Millis} {loss : Option Int}
    {wagerReason lossReason : String} {f : Bet → Bool} (h : Weighing i p.sessionId a start w)
    (hf : ∀ now b, start ≤ now → a.covers now b scope = true → b.counts = true → f b = true) :
    Wager env i e p (checkCapsOver (a.cap scope) loss wagerReason lossReason p.amountMicro f)
      (fun r w' => Weighing i p.sessionId a start w' ∧ (∀ breach, r = some breach →
        breach.allowed = false) ∧ (r = none → Roomy a scope p.amountMicro w')) w := by
  unfold checkCapsOver
  split
  · refine Go.bind_iff.mpr (Go.query (fun w => wager_tolerant.guar (.refl w)) fun w₁ hr hw => ?_)
    have h₁ := h.stable (hr p rfl)
    refine ⟨h₁, fun breach hbreach => ?_, fun hnone cap hcap => ?_⟩
    · unfold checkCaps at hbreach
      split at hbreach
      · obtain rfl := Option.some.inj hbreach
        rfl
      · obtain ⟨cap, -, rfl⟩ := Option.map_eq_some_iff.mp hbreach
        rfl
    · have hroom := (le_min_iff.mp (checkCaps_eq_none_iff.mp hnone)).1
      have hle : w₁.staked a scope Bet.counts ≤ wagered (Table.select f w₁.bets) := by
        rw [wagered, ← Table.total_eq_sum_select]
        refine Table.total_le (fun n b hb hcounted => ⟨b, hb, ?_, rfl⟩) hw
        simp only [Bool.and_eq_true] at hcounted
        exact hf w₁.now b h₁.start hcounted.1 hcounted.2
      have hcapped := le_headroom_iff.mp hroom cap hcap
      omega
  · rename_i hnone
    simp only [Bool.or_eq_true, not_or, Option.not_isSome_iff_eq_none] at hnone
    refine ⟨h, fun _ hbreach => (by cases hbreach), fun _ cap hcap => ?_⟩
    rw [hnone.1] at hcap
    cases hcap

/-- **The verdict**: a wager that is let through has room in every scope. -/
theorem checkRGLimits_wager {session : GameSession} {betContext : BetContext}
    (h : Weighing i p.sessionId (session.account p.sessionId) 0 w) :
    Wager env i e p (checkRGLimits env p.sessionId session p.amountMicro betContext)
      (fun r w' => Weighing i p.sessionId (session.account p.sessionId) 0 w' ∧ (r.allowed = true →
        ∀ scope, Roomy (session.account p.sessionId) scope p.amountMicro w')) w := by
  have hnow : Wager env i e p Action.now
      (fun now w' => Weighing i p.sessionId (session.account p.sessionId) now w') w :=
    Go.query (fun w => wager_tolerant.guar (.refl w)) fun w₁ hr _ =>
      ⟨(h.stable (hr p rfl)).sole, (h.stable (hr p rfl)).account, (h.stable (hr p rfl)).unsigned,
        Nat.le_refl _⟩
  have hzero : ∀ {now : Millis} {w : World},
      Weighing i p.sessionId (session.account p.sessionId) now w →
        Weighing i p.sessionId (session.account p.sessionId) 0 w := fun h =>
    ⟨h.sole, h.account, h.unsigned, Nat.zero_le _⟩
  unfold checkRGLimits
  refine Go.bind_iff.mpr (hnow.mono fun now w h => ?_)
  dsimp only
  split
  · exact ⟨hzero h, fun hallowed => by cases hallowed⟩
  split
  · rename_i hany
    refine ⟨hzero h, fun _ scope cap hcap => ?_⟩
    -- without a limit there is no cap
    simp only [hasAnyLimit, Bool.not_eq_true', Bool.or_eq_false_iff, Option.isSome_eq_false_iff,
      Option.isNone_iff_eq_none] at hany
    cases scope with
    | session => exact absurd (hcap.symm.trans hany.1.2) (by simp)
    | day => exact absurd (hcap.symm.trans hany.1.1.1.2) (by simp)
  split
  · exact ⟨hzero h, fun hallowed => by cases hallowed⟩
  refine Go.bind_iff.mpr ((checkCapsOver_wager .session h fun _ b _ hcovers hc => ?_).mono
    fun inSession w hsession => ?_)
  · exact decide_eq_true ⟨of_decide_eq_true hcovers, hc⟩
  obtain ⟨h, hbreach, hroom⟩ := hsession
  cases inSession with
  | some breach => exact ⟨hzero h, fun hallowed => absurd hallowed (by simp [hbreach breach rfl])⟩
  | none =>
      have hkept : ∀ {w w' : World}, (wagerRules env i (.placeBet e p)).rely w w' →
          Weighing i p.sessionId (session.account p.sessionId) now w ∧
            Roomy (session.account p.sessionId) .session p.amountMicro w →
          Weighing i p.sessionId (session.account p.sessionId) now w' ∧
            Roomy (session.account p.sessionId) .session p.amountMicro w' := fun hr h =>
        ⟨h.1.stable (hr p rfl), h.2.stable (hr p rfl) h.1⟩
      refine Go.bind_iff.mpr (((checkCapsOver_wager .day h fun later b hlater hcovers hc => ?_).carry
        (Idle.checkCapsOver _ _ _ _ _ _) ⟨h, hroom rfl⟩ hkept fun _ hs hR =>
          hkept (wager_tolerant.rely hs) hR).mono fun today w htoday => ?_)
      · obtain ⟨hop, hplayer, hat⟩ := of_decide_eq_true hcovers
        exact decide_eq_true ⟨hop, hplayer, hc, (dayStart_mono hlater).trans hat⟩
      obtain ⟨⟨h, hbreach, hroom'⟩, -, hroom⟩ := htoday
      refine ⟨hzero h, fun hallowed scope => ?_⟩
      cases today with
      | some breach => exact absurd hallowed (by simp [hbreach breach rfl])
      | none =>
          cases scope with
          | session => exact hroom
          | day => exact hroom' rfl

/-- A wager that passed its check. -/
def Admitted (i : Nat) (session : GameSession) (p : PlaceBetParams) (w : World) : Prop :=
  Weighing i p.sessionId (session.account p.sessionId) 0 w ∧
    ∀ scope, Roomy (session.account p.sessionId) scope p.amountMicro w

/-- **The bet is created** only where the caps leave it room. -/
theorem takeStake_wager {session : GameSession} {round : ActiveRound} (h : Admitted i session p w) :
    Wager env i e p (GameEngine.takeStake env e p round) (fun _ _ => True) w := by
  refine takeStake_go_of wager_tolerant (fun hr => (hr p rfl).later) (fun hp => hp.1.later)
    (fun hnot hi => absurd hi hnot) (fun hr h => ⟨h.1.stable (hr p rfl), fun scope =>
      (h.2 scope).stable (hr p rfl) h.1⟩) (fun howner h hw hperm hi b' hb' => ?_) h
  rename_i w txUuid commissionMicro
  obtain rfl := Option.some.inj ((Table.getElem?_concat_length w.bets _).symm.trans hb')
  have hcreated : ¬ NoBetYet i (w.addBet (GameEngine.newBet e p round.id commissionMicro txUuid w.now)) :=
    fun hi => hi _ (List.mem_append_right _ (List.mem_singleton_self _)) howner
  have hunshared := hperm.2 p rfl hi
  refine ⟨hunshared.stake trivial hcreated, fun a ha scope cap hcap => ?_⟩
  -- whatever may yet be taken was counted
  have hle : w.staked a scope Bet.weighs ≤ w.staked a scope Bet.counts := by
    refine Table.total_le (fun n b hb hweighed => ⟨b, hb, ?_, rfl⟩) hw
    simp only [Bool.and_eq_true] at hweighed ⊢
    exact ⟨hweighed.1, hunshared.seen trivial hcreated a ha scope
      (Option.isSome_iff_exists.mpr ⟨cap, hcap⟩) b (List.mem_of_getElem? hb) hweighed.1 hweighed.2⟩
  obtain rfl := Option.some.inj (ha.symm.trans h.1.account)
  have hroom := h.2 scope cap hcap
  change w.staked _ scope Bet.weighs + p.amountMicro ≤ cap
  omega

/-- **Checking the limits before taking the stake.** -/
theorem checkLimits_wager {session : GameSession} {round : ActiveRound}
    (h : Weighing i p.sessionId (session.account p.sessionId) 0 w) :
    Wager env i e p (GameEngine.checkLimits env e p round session) (fun _ _ => True) w := by
  refine wager_tolerant.idle_bind (Idle.previousBet _ _ _ _) h (fun hr h => h.stable (hr p rfl))
    fun previous w h => ?_
  refine wager_tolerant.idle_bind Idle.now h (fun hr h => h.stable (hr p rfl)) fun now w h => ?_
  refine Go.bind_iff.mpr ((checkRGLimits_wager h).mono fun rgCheck w hverdict => ?_)
  split
  · rename_i hallowed
    exact takeStake_wager ⟨hverdict.1, hverdict.2 hallowed⟩
  · refine Go.bind_iff.mpr ((wager_tolerant.of_idle (Idle.rejectBet _ _ _)).mono fun _ w _ => ?_)
    split
    · exact Go.bind_iff.mpr (Go.modify fun w₁ _ _ _ => ⟨fun _ => .of_bets rfl, fun _ => trivial⟩)
    · trivial

/-- **Placing a bet.** -/
theorem placeBet_wager (hi : NoBetYet i w) (hw : w.Unsigned) :
    Wager env i e p (GameEngine.placeBet env e p) (fun _ _ => True) w :=
  placeBet_go_of wager_tolerant (fun _ w => NoBetYet i w ∧ w.Unsigned)
    (fun _ session w => Weighing i p.sessionId (session.account p.sessionId) 0 w)
    (fun hr _ _ => ⟨(hr p rfl).sole hi, (hr p rfl).unsigned hw⟩)
    (fun hr h => ⟨(hr p rfl).sole h.1, (hr p rfl).unsigned h.2⟩)
    (fun h hs => ⟨h.1, by rw [World.account?, hs]; rfl, h.2, Nat.zero_le _⟩)
    (fun hr h => h.stable (hr p rfl)) fun h => checkLimits_wager h

end Walk

end YantraRgs
