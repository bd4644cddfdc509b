import YantraRgs.Db.Schema

/-! # What the server is built and configured with

The registered games, the row hashes of the audit chain, the build, and the rules of the
jurisdictions. -/

namespace YantraRgs

/-- A bet as the rules of its jurisdiction see it. -/
structure JurisdictionCheck where
  jurisdiction : String
  stakeMicro : Int
  currency : Currency
  timeSincePreviousBetMs : Option Millis
  autoplay : Option Bool
  turbo : Option Bool
  mode : SessionMode
  playerKycVerified : Option Bool

/-- What a limit check says about a bet. -/
structure LimitCheckResult where
  allowed : Bool
  reason : Option String
  remainingMicro : Option Int
  deriving DecidableEq

/-- The limits that a jurisdiction may tighten. -/
structure RGFloor where
  sessionTimeSeconds : Option Nat
  sessionLossMicro : Option Int
  dailyLossMicro : Option Int
  deriving DecidableEq

/-- What the server is built and configured with. -/
structure Env where
  getPlugin : GameCode → Option GamePlugin
  /-- The hash of a wallet call row, over the tip of its chain. -/
  hashWalletCall : Option RowHash → Nat → WalletCall → RowHash
  /-- The hash of a round row, over the tip of its chain. -/
  hashRound : Option RowHash → Nat → Round → RowHash
  currentBuildHash : Option Nat
  checkJurisdictionRules : JurisdictionCheck → LimitCheckResult
  /-- The floor of a jurisdiction under the operator's own limits. -/
  effectiveRGFloor : String → RGFloor → RGFloor

end YantraRgs
