import Mathlib
import YantraRgs.Await.Alone
import YantraRgs.Properties.Runs
import YantraRgs.Server.JurisdictionRules

/-! # The limits let through what they should

A bet is to be let through when the session is not over its time and the stake keeps every total under
the tighter of the operator's limit and the jurisdiction's. The totals are taken over every stake that
the operator took and did not give back. The check leaves out the bets that failed, whose stake was
taken as well: their wins were never credited.

* **`Allowed`** — what the limits are for.
* **`room`** — how large a stake the caps leave.
* **`decision_exact_iff`** — the check is right exactly where leaving out the failed bets does not matter. -/

namespace YantraRgs

open Await

instance : Inhabited Choice := ⟨.ok⟩

/-- The stake of a bet was taken, and not given back. -/
def Bet.taken (b : Bet) : Bool := b.counts ∨ b.status = .failed

/-- A bet as the rules of its jurisdiction see it. -/
def jurisdictionCheck (session : GameSession) (stakeMicro : Int) (betContext : BetContext) :
    JurisdictionCheck where
  jurisdiction := session.jurisdiction
  stakeMicro := stakeMicro
  currency := session.currency
  timeSincePreviousBetMs := betContext.timeSincePreviousBetMs
  autoplay := betContext.autoplay
  turbo := betContext.turbo
  mode := session.mode
  playerKycVerified := betContext.playerKycVerified

/-- `limit` is the tighter of two limits, of which either may be missing. -/
def Tighter {α : Type} [LE α] (regulated own : Option α) (limit : α) : Prop :=
  IsLeast {l | l ∈ regulated ∨ l ∈ own} limit

namespace World

variable (w : World) (p : Bet → Bool)

/-- The bets of a session that satisfy `p`. -/
def sessionBets (sessionId : Nat) : List (Nat × Bet) :=
  Table.select (fun b => b.sessionId = sessionId ∧ p b) w.bets

/-- The bets of a player that satisfy `p`, since midnight (UTC). -/
def dayBets (session : GameSession) : List (Nat × Bet) :=
  Table.select (fun b => b.operatorId = session.operatorId ∧ b.playerRef = session.playerRef ∧
    p b ∧ dayStart w.now ≤ b.placedAt) w.bets

end World

/-- **What the limits are for**: the session is not over its time, and with the stake every total stays
under the tighter of the limits on it. -/
structure Allowed (w : World) (sessionId : Nat) (session : GameSession) (stakeMicro : Int) :
    Prop where
  time : ∀ s, Tighter (getJurisdiction session.jurisdiction).maxSessionTimeSec
    session.rgLimits.sessionTimeSeconds s → w.now < session.createdAt + s * 1000
  sessionWager : ∀ cap ∈ session.rgLimits.sessionWagerMicro,
    wagered (w.sessionBets Bet.taken sessionId) + stakeMicro ≤ cap
  sessionLoss : ∀ cap, Tighter (getJurisdiction session.jurisdiction).maxSessionLossMicro
    session.rgLimits.sessionLossMicro cap →
      netLoss (w.sessionBets Bet.taken sessionId) + stakeMicro ≤ cap
  dailyWager : ∀ cap ∈ session.rgLimits.dailyWagerMicro,
    wagered (w.dayBets Bet.taken session) + stakeMicro ≤ cap
  dailyLoss : ∀ cap, Tighter (getJurisdiction session.jurisdiction).maxDailyLossMicro
    session.rgLimits.dailyLossMicro cap → netLoss (w.dayBets Bet.taken session) + stakeMicro ≤ cap

/-! ## Room under the caps -/

/-- The stake that a cap leaves over a total; a missing cap leaves any. -/
def headroom : Option Int → Int → WithTop Int
  | none, _ => ⊤
  | some cap, total => ↑(cap - total)

/-- The stake that the caps leave over the bets of a session and of a day. -/
def RGLimits.room (limits : RGLimits) (inSession today : List (Nat × Bet)) : WithTop Int :=
  min (min (headroom limits.sessionWagerMicro (wagered inSession))
      (headroom limits.sessionLossMicro (netLoss inSession)))
    (min (headroom limits.dailyWagerMicro (wagered today))
      (headroom limits.dailyLossMicro (netLoss today)))

/-- A stake is under a cap when it is no larger than what the cap leaves. -/
theorem le_headroom_iff {cap : Option Int} {total stakeMicro : Int} :
    (stakeMicro : WithTop Int) ≤ headroom cap total ↔ ∀ c ∈ cap, total + stakeMicro ≤ c := by
  cases cap with
  | none => simp [headroom]
  | some c =>
      simp only [headroom, WithTop.coe_le_coe, Option.mem_some_iff, forall_eq']
      omega

/-- A pair of caps lets a stake through when both leave it room. -/
theorem checkCaps_eq_none_iff {wager loss : Option Int} {wagerReason lossReason : String}
    {stakeMicro : Int} {bets : List (Nat × Bet)} :
    checkCaps wager loss wagerReason lossReason stakeMicro bets = none ↔
      (stakeMicro : WithTop Int) ≤
        min (headroom wager (wagered bets)) (headroom loss (netLoss bets)) := by
  rw [le_min_iff, le_headroom_iff, le_headroom_iff, checkCaps]
  cases wager with
  | none =>
      cases loss with
      | none => simp
      | some l => simp [Option.filter_some]
  | some c =>
      by_cases hc : c < wagered bets + stakeMicro
      · simp [Option.filter_some, hc]
      · cases loss with
        | none => simp [Option.filter_some, hc, not_lt.mp hc]
        | some l => simp [Option.filter_some, hc, not_lt.mp hc]

/-- What a pair of caps hands back is a refusal. -/
theorem allowed_getD_checkCaps {wager loss : Option Int} {wagerReason lossReason : String}
    {stakeMicro : Int} {bets : List (Nat × Bet)} {rest : LimitCheckResult} :
    ((checkCaps wager loss wagerReason lossReason stakeMicro bets).getD rest).allowed = true ↔
      checkCaps wager loss wagerReason lossReason stakeMicro bets = none ∧ rest.allowed = true := by
  rw [checkCaps]
  cases wager.filter fun cap => cap < wagered bets + stakeMicro with
  | some cap => simp [LimitCheckResult.breach]
  | none =>
      cases loss.filter fun cap => cap < netLoss bets + stakeMicro with
      | some cap => simp [LimitCheckResult.breach]
      | none => simp

/-- The bets are read when there is a cap, and without one they do not matter. -/
theorem checkCapsOver_reads (wager loss : Option Int) (wagerReason lossReason : String)
    (stakeMicro : Int) (p : Bet → Bool) (i : Nat) (w : World) :
    (checkCapsOver wager loss wagerReason lossReason stakeMicro p).Reads i w
      (checkCaps wager loss wagerReason lossReason stakeMicro (Table.select p w.bets)) := by
  rw [checkCapsOver]
  by_cases hcap : (wager.isSome || loss.isSome) = true
  · rw [if_pos hcap]
    exact .query .ret
  · rw [if_neg hcap]
    simp only [Bool.or_eq_true, not_or, Option.not_isSome_iff_eq_none] at hcap
    rw [hcap.1, hcap.2]
    exact .ret

/-- A stake lies between two rooms when it fits in one of them alone. -/
theorem mem_uIoc_iff {α : Type} [LinearOrder α] {a b c : α} :
    a ∈ Set.uIoc b c ↔ ¬ (a ≤ b ↔ a ≤ c) := by
  rw [Set.mem_uIoc, ← not_le, ← not_le]
  tauto

/-! ## The tighter limit -/

/-- The tightest of the candidates is the tighter of the two limits. -/
theorem mem_tightest_iff {α : Type} [LinearOrder α] {regulated own : Option α} {limit : α} :
    limit ∈ tightest regulated own ↔ Tighter regulated own limit := by
  rw [Option.mem_def, tightest, List.min?_eq_some_iff, Tighter, IsLeast, mem_lowerBounds]
  simp only [List.mem_append, Option.mem_toList, Set.mem_ofPred_eq, Option.mem_def]

/-- Where the tightest of the candidates is missing, so is the operator's limit. -/
theorem tightest_orElse {α : Type} [Min α] (regulated own : Option α) :
    ((tightest regulated own).orElse fun _ => own) = tightest regulated own := by
  cases own with
  | none => cases regulated <;> rfl
  | some l => cases regulated <;> rfl

/-- The limits of a session under the rules. -/
theorem effectiveLimits_regulated (name : Currency → String) (env : Env) (session : GameSession) :
    effectiveLimits (env.regulated name) session =
      { session.rgLimits with
        dailyLossMicro := tightest (getJurisdiction session.jurisdiction).maxDailyLossMicro
          session.rgLimits.dailyLossMicro
        sessionLossMicro := tightest (getJurisdiction session.jurisdiction).maxSessionLossMicro
          session.rgLimits.sessionLossMicro
        sessionTimeSeconds := tightest (getJurisdiction session.jurisdiction).maxSessionTimeSec
          session.rgLimits.sessionTimeSeconds } := by
  simp only [effectiveLimits, Env.regulated, effectiveRGFloor, tightest_orElse]

/-! ## The decision -/

section Decision

variable (name : Currency → String) (env : Env) (w : World) (sessionId : Nat) (session : GameSession)
variable (stakeMicro : Int) (betContext : BetContext) (i : Nat)

/-- The session is over the tighter limit on its time. -/
def OverTime : Prop :=
  ∃ s, Tighter (getJurisdiction session.jurisdiction).maxSessionTimeSec
    session.rgLimits.sessionTimeSeconds s ∧ session.createdAt + s * 1000 ≤ w.now

/-- The stake that the tightest limits leave, when the bets that satisfy `p` count. -/
def roomOver (p : Bet → Bool) : WithTop Int :=
  (effectiveLimits (env.regulated name) session).room (w.sessionBets p sessionId)
    (w.dayBets p session)

/-- **The decision of the check**, over a bet that its jurisdiction lets through: the session is not over
its time, and the stake fits in the room over the bets that were accepted or settled. -/
theorem checkRGLimits_reads
    (hpass : (checkJurisdictionRules name (jurisdictionCheck session stakeMicro betContext)).allowed =
      true) :
    ∃ r, (checkRGLimits (env.regulated name) sessionId session stakeMicro betContext).Reads i w r ∧
      (r.allowed = true ↔ ¬ OverTime w session ∧
        (stakeMicro : WithTop Int) ≤ roomOver name env w sessionId session Bet.counts) := by
  have hover : OverTime w session ↔
      ((effectiveLimits (env.regulated name) session).sessionTimeSeconds.any fun s =>
        session.createdAt + s * 1000 ≤ w.now) = true := by
    simp only [OverTime, effectiveLimits_regulated, ← mem_tightest_iff, Option.any_eq_true,
      decide_eq_true_eq, Option.mem_def]
  have hpass' : ((env.regulated name).checkJurisdictionRules
      (jurisdictionCheck session stakeMicro betContext)).allowed = true := hpass
  rw [jurisdictionCheck] at hpass'
  rw [roomOver, hover, RGLimits.room, le_min_iff]
  unfold checkRGLimits
  generalize effectiveLimits (env.regulated name) session = limits
  by_cases hany : hasAnyLimit limits = true
  · by_cases htime : (limits.sessionTimeSeconds.any fun s =>
        session.createdAt + s * 1000 ≤ w.now) = true
    · refine ⟨.breach "session_time_exceeded" 0, .query ?_, ?_⟩
      · simp only [hpass', hany, htime]
        exact .ret
      · simp [htime, LimitCheckResult.breach]
    · refine ⟨(checkCaps limits.sessionWagerMicro limits.sessionLossMicro "session_wager_exceeded"
        "session_loss_exceeded" stakeMicro (w.sessionBets Bet.counts sessionId)).getD
          ((checkCaps limits.dailyWagerMicro limits.dailyLossMicro "daily_wager_exceeded"
            "daily_loss_exceeded" stakeMicro (w.dayBets Bet.counts session)).getD ⟨true, none, none⟩),
        .query ?_, ?_⟩
      · simp only [hpass', hany, htime]
        refine .bind (checkCapsOver_reads _ _ _ _ _ _ i w) ?_
        rw [World.sessionBets]
        cases checkCaps limits.sessionWagerMicro limits.sessionLossMicro "session_wager_exceeded"
            "session_loss_exceeded" stakeMicro _ with
        | some breach => exact .ret
        | none => exact .bind (checkCapsOver_reads _ _ _ _ _ _ i w) .ret
      · rw [allowed_getD_checkCaps, allowed_getD_checkCaps, checkCaps_eq_none_iff, checkCaps_eq_none_iff]
        simp only [and_true]
        exact (and_iff_right htime).symm
  · -- without a limit there is room for any stake
    simp only [hasAnyLimit, Bool.or_eq_true, not_or, Option.not_isSome_iff_eq_none] at hany
    obtain ⟨⟨⟨⟨hdailyLoss, hdailyWager⟩, hsessionLoss⟩, hsessionWager⟩, htime⟩ := hany
    refine ⟨⟨true, none, none⟩, .query ?_, ?_⟩
    · simp only [hpass', hasAnyLimit, hdailyLoss, hdailyWager, hsessionLoss, hsessionWager, htime]
      exact .ret
    · simp [hdailyLoss, hdailyWager, hsessionLoss, hsessionWager, htime, headroom]

/-- What the limits are for, as a room: it is the one over every stake that was taken. -/
theorem allowed_iff : Allowed w sessionId session stakeMicro ↔ ¬ OverTime w session ∧
    (stakeMicro : WithTop Int) ≤ roomOver name env w sessionId session Bet.taken := by
  rw [roomOver, RGLimits.room, effectiveLimits_regulated, le_min_iff, le_min_iff, le_min_iff]
  simp only [le_headroom_iff, mem_tightest_iff]
  constructor
  · intro h
    refine ⟨?_, ⟨h.sessionWager, h.sessionLoss⟩, h.dailyWager, h.dailyLoss⟩
    rintro ⟨s, hs, hover⟩
    exact absurd (h.time s hs) (not_lt.mpr hover)
  · rintro ⟨htime, ⟨hsessionWager, hsessionLoss⟩, hdailyWager, hdailyLoss⟩
    exact ⟨fun s hs => not_le.mp fun hover => htime ⟨s, hs, hover⟩, hsessionWager, hsessionLoss,
      hdailyWager, hdailyLoss⟩

/-- **The check is exact where the failed bets do not matter**: a bet that its jurisdiction lets through
is decided rightly exactly when the session is over its time, or the stake does not lie between the room
over the bets that were accepted or settled and the room over the failed ones as well. -/
theorem decision_exact_iff
    (hpass : (checkJurisdictionRules name (jurisdictionCheck session stakeMicro betContext)).allowed =
      true) :
    (∃ r, (checkRGLimits (env.regulated name) sessionId session stakeMicro betContext).Reads i w r ∧
        (r.allowed = true ↔ Allowed w sessionId session stakeMicro)) ↔
      OverTime w session ∨ (stakeMicro : WithTop Int) ∉
        Set.uIoc (roomOver name env w sessionId session Bet.counts)
          (roomOver name env w sessionId session Bet.taken) := by
  obtain ⟨r, hr, hdecision⟩ :=
    checkRGLimits_reads name env w sessionId session stakeMicro betContext i hpass
  -- the check comes to one result, so it is about that one
  have hone : (∃ r', (checkRGLimits (env.regulated name) sessionId session stakeMicro
      betContext).Reads i w r' ∧ (r'.allowed = true ↔ Allowed w sessionId session stakeMicro)) ↔
        (r.allowed = true ↔ Allowed w sessionId session stakeMicro) := by
    constructor
    · rintro ⟨r', hr', h⟩
      obtain ⟨rfl, -⟩ := (hr r' w).mp ((hr' r' w).mpr ⟨rfl, rfl⟩)
      exact h
    · exact fun h => ⟨r, hr, h⟩
  rw [hone, hdecision, allowed_iff name env, mem_uIoc_iff]
  by_cases hover : OverTime w session
  · simp [hover]
  · simp [hover]

end Decision

namespace Sample

/-- The texts of the currencies. -/
def currencies (_ : Currency) : String := "EUR"

/-- A session in Malta whose wagers may not exceed 150. -/
def maltese : GameSession :=
  ⟨0, .named "ann", 0, 0, "MT", .real, ⟨none, none, none, some 150, none⟩, ⟨0, 0⟩, ⟨⟨0, 0⟩⟩, 0, 0, 0,
    86400000, none, none⟩

/-- A stake of a hundred, and what became of it. -/
def hundred (status : BetStatus) (wonAmountMicro : Option Int) : Bet :=
  ⟨0, 0, 0, .named "ann", .dice .low, 0, 100, 0, 0, status, wonAmountMicro, none, none, none, none,
    none, none, ⟨.stake, 0, 0⟩, none, none, 0, none⟩

/-- A server on which the session placed one bet, a minute ago. -/
def after (b : Bet) : World :=
  { World.initial operators credentials gameConfigs with
    now := 60000, sessions := [maltese], bets := [b] }

/-- A second stake, placed by hand. -/
def second : BetContext := ⟨none, none, some 60000, none⟩

end Sample

/-- After a stake that was settled, the second one is decided rightly. -/
theorem decision_exact_settled : ∃ r,
    (checkRGLimits (Sample.site.regulated Sample.currencies) 0 Sample.maltese 100 Sample.second).Reads 0
      (Sample.after (Sample.hundred .settled (some 0))) r ∧
        (r.allowed = true ↔
          Allowed (Sample.after (Sample.hundred .settled (some 0))) 0 Sample.maltese 100) := by
  have hpass : (checkJurisdictionRules Sample.currencies
      (jurisdictionCheck Sample.maltese 100 Sample.second)).allowed = true := by decide +kernel
  refine (decision_exact_iff Sample.currencies Sample.site _ 0 Sample.maltese 100 Sample.second 0
    hpass).mpr (.inr ?_)
  rw [mem_uIoc_iff]
  decide +kernel

/-- **A failed bet is forgotten**: its stake was taken, and the next one is let through over the cap on
the session's wagers. -/
theorem failed_forgotten : ¬ ∀ (name : Currency → String) (env : Env) (w : World) (sessionId : Nat)
    (session : GameSession) (stakeMicro : Int) (betContext : BetContext) (i : Nat),
    (checkJurisdictionRules name (jurisdictionCheck session stakeMicro betContext)).allowed = true →
      ∃ r, (checkRGLimits (env.regulated name) sessionId session stakeMicro betContext).Reads i w r ∧
        (r.allowed = true ↔ Allowed w sessionId session stakeMicro) := by
  intro h
  have hpass : (checkJurisdictionRules Sample.currencies
      (jurisdictionCheck Sample.maltese 100 Sample.second)).allowed = true := by decide +kernel
  obtain ⟨r, hr, hright⟩ := h Sample.currencies Sample.site
    (Sample.after (Sample.hundred .failed (some 0))) 0 Sample.maltese 100 Sample.second 0 hpass
  obtain ⟨r', hr', hdecision⟩ := checkRGLimits_reads Sample.currencies Sample.site
    (Sample.after (Sample.hundred .failed (some 0))) 0 Sample.maltese 100 Sample.second 0 hpass
  obtain ⟨rfl, -⟩ := (hr' r _).mp ((hr r _).mpr ⟨rfl, rfl⟩)
  have hallowed : r.allowed = true := by
    refine hdecision.mpr ⟨?_, by decide +kernel⟩
    rintro ⟨s, ⟨hs, -⟩, -⟩
    have hnone : (getJurisdiction "MT").maxSessionTimeSec = none := by decide +kernel
    simp [Sample.maltese, hnone] at hs
  have hwager := (hright.mp hallowed).sessionWager 150 rfl
  revert hwager
  decide +kernel

end YantraRgs
