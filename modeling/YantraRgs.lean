import YantraRgs.Properties.FairnessTriple
import YantraRgs.Properties.Pagination
import YantraRgs.Properties.IdempotentRequests
import YantraRgs.Properties.SingleEngine
import YantraRgs.Properties.TamperEvidence
import YantraRgs.Properties.SelfVerification
import YantraRgs.Properties.BackfilledChain
import YantraRgs.Properties.AnchorAuthentication
import YantraRgs.Properties.OpenRound
import YantraRgs.Properties.SettledRounds
import YantraRgs.Properties.OwedPayouts
import YantraRgs.Properties.Payouts
import YantraRgs.Properties.RefundedStake
import YantraRgs.Properties.Replays
import YantraRgs.Properties.BreakerProtocol
import YantraRgs.Properties.ProbeRelease
import YantraRgs.Properties.CrashReturn
import YantraRgs.Properties.CoveredDebits
import YantraRgs.Properties.RolledBackDebits
import YantraRgs.Properties.CrashPayouts
import YantraRgs.Properties.JournalledCalls
import YantraRgs.Properties.LimitDecisions
import YantraRgs.Properties.SpinFloor
import YantraRgs.Properties.WagerLimits
import YantraRgs.Properties.LiveRefinement
import YantraRgs.Properties.CredentialValidity
import YantraRgs.Properties.DeadCredentials
import YantraRgs.Properties.WebhookQueue
import YantraRgs.Properties.WebhookSignatures
import YantraRgs.Properties.JobExclusion
import YantraRgs.Properties.DailyTotals
import YantraRgs.Properties.LostFlights
import YantraRgs.Properties.SeedSecrecy
import YantraRgs.Wallet.Money
import YantraRgs.Wallet.Signing
import YantraRgs.Properties.DiceFairness
import YantraRgs.Properties.DiceReturn
import YantraRgs.Properties.InternalLedger
import YantraRgs.Properties.CanonicalEncoding
import YantraRgs.Properties.SignatureEncoding
import YantraRgs.Properties.LaunchTokens
import YantraRgs.Properties.RecoveryCodes
import YantraRgs.Properties.AttestedBuilds
import YantraRgs.Properties.PresenceCount
import YantraRgs.Properties.KillSwitch
import YantraRgs.Properties.DeadInvites
import YantraRgs.Properties.SingleUse
import YantraRgs.Properties.SurvivingTokens
import YantraRgs.Properties.BetEnvelopes
import YantraRgs.Properties.AllowedAddresses
import YantraRgs.Properties.KeyCases
import YantraRgs.Properties.TakenStakes
import YantraRgs.MockOperator.Store
import YantraRgs.MockOperator.Router
import YantraRgs.Properties.MockBalances
import YantraRgs.Properties.MockContract
import YantraRgs.Properties.OpenNetwork
import YantraRgs.Properties.AuditSecrets
import YantraRgs.Properties.AssertionCounters
import YantraRgs.Properties.SettlementFiles
import YantraRgs.Properties.DiceRounding
import YantraRgs.Properties.CrashRounding
