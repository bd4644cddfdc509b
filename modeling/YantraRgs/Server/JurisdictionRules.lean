import YantraRgs.Server.Env

/-! # The rules of the jurisdictions

What a regulator demands of a bet as far as the engine can tell when the bet is placed: currencies,
demo play, stakes, autoplay, turbo play, the time since the previous bet, and limits that the operator
may tighten only. -/

namespace YantraRgs

/-- The rules of a jurisdiction. -/
structure JurisdictionRules where
  code : String
  maxStakeMicro : Option Int
  /-- The least time between two bets; 0 is none. -/
  minSpinMs : Millis
  autoplayAllowed : Bool
  turboAllowed : Bool
  maxSessionTimeSec : Option Nat
  maxSessionLossMicro : Option Int
  maxDailyLossMicro : Option Int
  /-- The currencies accepted; an empty list accepts all. -/
  allowedCurrencies : List String
  demoAllowedWithoutKyc : Bool
  deriving DecidableEq

namespace JurisdictionRules

def UK : JurisdictionRules where
  code := "GB"
  maxStakeMicro := some 200000
  minSpinMs := 2500
  autoplayAllowed := false
  turboAllowed := false
  maxSessionTimeSec := none
  maxSessionLossMicro := none
  maxDailyLossMicro := none
  allowedCurrencies := ["GBP"]
  demoAllowedWithoutKyc := false

def DE : JurisdictionRules where
  code := "DE"
  maxStakeMicro := some 100000
  minSpinMs := 5000
  autoplayAllowed := false
  turboAllowed := false
  maxSessionTimeSec := none
  maxSessionLossMicro := none
  maxDailyLossMicro := none
  allowedCurrencies := ["EUR"]
  demoAllowedWithoutKyc := true

def ES : JurisdictionRules where
  code := "ES"
  maxStakeMicro := none
  minSpinMs := 0
  autoplayAllowed := true
  turboAllowed := true
  maxSessionTimeSec := none
  maxSessionLossMicro := none
  maxDailyLossMicro := none
  allowedCurrencies := ["EUR"]
  demoAllowedWithoutKyc := true

def ON_CA : JurisdictionRules where
  code := "ON-CA"
  maxStakeMicro := none
  minSpinMs := 2500
  autoplayAllowed := false
  turboAllowed := false
  maxSessionTimeSec := none
  maxSessionLossMicro := none
  maxDailyLossMicro := none
  allowedCurrencies := ["CAD"]
  demoAllowedWithoutKyc := true

def MT : JurisdictionRules where
  code := "MT"
  maxStakeMicro := none
  minSpinMs := 2500
  autoplayAllowed := true
  turboAllowed := true
  maxSessionTimeSec := none
  maxSessionLossMicro := none
  maxDailyLossMicro := none
  allowedCurrencies := ["EUR", "USD", "GBP"]
  demoAllowedWithoutKyc := true

def SE : JurisdictionRules where
  code := "SE"
  maxStakeMicro := none
  minSpinMs := 3000
  autoplayAllowed := false
  turboAllowed := false
  maxSessionTimeSec := none
  maxSessionLossMicro := none
  maxDailyLossMicro := none
  allowedCurrencies := ["SEK", "EUR"]
  demoAllowedWithoutKyc := false

def RO : JurisdictionRules where
  code := "RO"
  maxStakeMicro := none
  minSpinMs := 2000
  autoplayAllowed := true
  turboAllowed := true
  maxSessionTimeSec := none
  maxSessionLossMicro := none
  maxDailyLossMicro := none
  allowedCurrencies := ["RON", "EUR"]
  demoAllowedWithoutKyc := true

def BR : JurisdictionRules where
  code := "BR"
  maxStakeMicro := none
  minSpinMs := 2000
  autoplayAllowed := false
  turboAllowed := false
  maxSessionTimeSec := none
  maxSessionLossMicro := none
  maxDailyLossMicro := none
  allowedCurrencies := ["BRL"]
  demoAllowedWithoutKyc := false

def HN : JurisdictionRules where
  code := "HN"
  maxStakeMicro := none
  minSpinMs := 2000
  autoplayAllowed := true
  turboAllowed := true
  maxSessionTimeSec := none
  maxSessionLossMicro := none
  maxDailyLossMicro := none
  allowedCurrencies := ["HNL"]
  demoAllowedWithoutKyc := true

/-- No regulator, as of sandboxes and cross-jurisdiction operators. -/
def INTL : JurisdictionRules where
  code := "INTL"
  maxStakeMicro := none
  minSpinMs := 0
  autoplayAllowed := true
  turboAllowed := true
  maxSessionTimeSec := none
  maxSessionLossMicro := none
  maxDailyLossMicro := none
  allowedCurrencies := []
  demoAllowedWithoutKyc := true

end JurisdictionRules

open JurisdictionRules

/-- The rules by the code of their jurisdiction. -/
def JURISDICTIONS : List (String × JurisdictionRules) :=
  [("GB", UK), ("GB-UK", UK), ("DE", DE), ("ES", ES), ("MT", MT), ("SE", SE), ("RO", RO), ("BR", BR),
    ("HN", HN), ("ON", ON_CA), ("ON-CA", ON_CA), ("INTL", INTL), ("MULTI", INTL)]

/-- The rules of a jurisdiction; one that is not known has none. -/
def getJurisdiction (code : String) : JurisdictionRules := (JURISDICTIONS.lookup code).getD INTL

/-- A bet that breaks a rule. -/
def JurisdictionRules.breach (reason : String) (remainingMicro : Option Int) : LimitCheckResult :=
  ⟨false, some reason, remainingMicro⟩

/-- **Check a bet against the rules of its jurisdiction.** `name` is the text of a currency. -/
def checkJurisdictionRules (name : Currency → String) (input : JurisdictionCheck) :
    LimitCheckResult :=
  let rules := getJurisdiction input.jurisdiction
  if rules.allowedCurrencies ≠ [] ∧ name input.currency ∉ rules.allowedCurrencies then
    breach "currency_not_permitted" none
  else if input.mode = .demo ∧ rules.demoAllowedWithoutKyc = false ∧
      input.playerKycVerified.getD false = false then
    breach "demo_not_allowed_without_kyc" none
  else if rules.maxStakeMicro.any (· < input.stakeMicro) then
    breach "stake_above_jurisdiction_max" rules.maxStakeMicro
  else if input.autoplay = some true ∧ rules.autoplayAllowed = false then
    breach "autoplay_not_permitted" none
  else if input.turbo = some true ∧ rules.turboAllowed = false then
    breach "turbo_not_permitted" none
  -- two bets within one millisecond are not too fast: a gap of 0 stands for a first bet
  else if 0 < rules.minSpinMs ∧
      input.timeSincePreviousBetMs.any fun gap => 0 < gap ∧ gap < rules.minSpinMs then
    breach "spin_too_fast" none
  else ⟨true, none, none⟩

/-- The least of the candidates for a limit: the regulated one and the operator's. -/
def tightest {α : Type} [Min α] (regulated own : Option α) : Option α :=
  (regulated.toList ++ own.toList).min?

/-- The tightest limits of a session that both the jurisdiction and the operator may set. -/
def effectiveRGFloor (jurisdiction : String) (operatorLimits : RGFloor) : RGFloor :=
  let rules := getJurisdiction jurisdiction
  { sessionTimeSeconds := tightest rules.maxSessionTimeSec operatorLimits.sessionTimeSeconds
    sessionLossMicro := tightest rules.maxSessionLossMicro operatorLimits.sessionLossMicro
    dailyLossMicro := tightest rules.maxDailyLossMicro operatorLimits.dailyLossMicro }

/-- A server under these rules. -/
def Env.regulated (name : Currency → String) (env : Env) : Env :=
  { env with checkJurisdictionRules := YantraRgs.checkJurisdictionRules name
             effectiveRGFloor := YantraRgs.effectiveRGFloor }

end YantraRgs
