import YantraRgs.Services.CanonicalJson
import YantraRgs.Text.Iso
import YantraRgs.Wallet.Types
import Mathlib.Data.List.Perm.Basic

/-! # The gate that attests the build

A laboratory certifies a build for a game and a jurisdiction. Before an engine is made, the certificates
of its game and jurisdiction are read, and in strict mode the engine is refused unless they cover the
build that runs.

* **`Certificate`** — a certificate, and which of them a request is about.
* **`IsAnswer`** — what the database may answer.
* **`check`** — the decision, with its reason. -/

namespace YantraRgs.BuildAttestation

/-- A certificate of a build. -/
structure Certificate where
  id : String
  gameCode : String
  jurisdiction : String
  buildHash : String
  issuedAt : Millis
  validFrom : Millis
  expiresAt : Millis
  rngVersion : Option String
  revokedAt : Option Millis
  deriving DecidableEq

/-- What a game declares of its certification. -/
structure PluginCert where
  rngVersion : String

/-- The environment of the process, and the games that are registered. -/
structure Env where
  BUILD_HASH : Option String
  RGS_CERT_STRICT : Option String
  getPlugin : String → Option PluginCert

/-- Whether a gap refuses an engine. -/
def Env.strictMode (env : Env) : Bool := env.RGS_CERT_STRICT = some "1"

/-- **The hash of the build that runs**; a short one counts as none. -/
def Env.buildHash (env : Env) : Option String := env.BUILD_HASH.filter (7 ≤ ·.length)

/-- What a request is about. -/
structure CheckArgs where
  operatorId : String
  gameCode : String
  jurisdiction : String

/-- Why an engine is not covered. -/
inductive Reason
  | missingBuildHash
  | noMatchingCertificate
  | buildHashDrift
  | certificateExpired
  | certificateRevoked
  | rngVersionMismatch
  deriving DecidableEq

/-- The decision about an engine. -/
structure BuildAttestationResult where
  allowed : Bool
  buildHash : Option String
  reason : Option Reason := none
  certificateId : Option String := none
  certifiedBuildHash : Option String := none
  expiresAt : Option Text := none
  deriving DecidableEq

/-- The certificates of a game, for a jurisdiction or for several. -/
def Certificate.candidate (args : CheckArgs) (c : Certificate) : Bool :=
  c.gameCode = args.gameCode ∧ (c.jurisdiction = args.jurisdiction ∨ c.jurisdiction = "MULTI")

/-- **What the database may answer**: the candidates, the latest first. -/
def IsAnswer (certificates : List Certificate) (args : CheckArgs) (candidates : List Certificate) :
    Prop :=
  candidates.Perm (certificates.filter (Certificate.candidate args)) ∧
    candidates.Pairwise fun c d => d.issuedAt ≤ c.issuedAt

/-- A certificate for another generator of random numbers than a game has. -/
def Certificate.mismatch (liveRng : String) (c : Certificate) : Bool :=
  c.rngVersion ≠ none ∧ c.rngVersion ≠ some liveRng

/-- A certificate that is neither revoked nor past its end. -/
def Certificate.live (now : Millis) (c : Certificate) : Bool := c.revokedAt = none ∧ now < c.expiresAt

/-- The refusal where certificates are of the running build and none of them is in force. -/
def notLive (refused : BuildAttestationResult) (now : Millis) (matchesBuild : List Certificate) :
    BuildAttestationResult :=
  match matchesBuild.find? (fun c => c.revokedAt ≠ none),
      matchesBuild.find? (fun c => c.expiresAt ≤ now) with
  | some revoked, _ =>
      { refused with reason := some .certificateRevoked, certificateId := some revoked.id }
  | none, some expired =>
      { refused with
        reason := some .certificateExpired
        certificateId := some expired.id
        expiresAt := some (toISOString expired.expiresAt) }
  | none, none => refused

/-- The decision for the certificates of the running build. -/
def checkMatches (refused : BuildAttestationResult) (plugin : PluginCert) (now : Millis)
    (matchesBuild : List Certificate) : BuildAttestationResult :=
  match matchesBuild.find? (Certificate.mismatch plugin.rngVersion) with
  | some rngMismatch =>
      { refused with reason := some .rngVersionMismatch, certificateId := some rngMismatch.id }
  | none =>
      match matchesBuild.find? (Certificate.live now) with
      | some live =>
          { allowed := true
            buildHash := refused.buildHash
            certificateId := some live.id
            certifiedBuildHash := some live.buildHash
            expiresAt := some (toISOString live.expiresAt) }
      | none => notLive refused now matchesBuild

/-- **The decision** for the candidates that were read. -/
def check (env : Env) (args : CheckArgs) (now : Millis) (candidates : List Certificate) :
    BuildAttestationResult :=
  match env.buildHash with
  | none => { allowed := !env.strictMode, buildHash := none, reason := some .missingBuildHash }
  | some buildHash =>
      let refused : BuildAttestationResult :=
        { allowed := !env.strictMode, buildHash := some buildHash
          reason := some .noMatchingCertificate }
      if candidates.length = 0 then refused
      else
        let matchesBuild := candidates.filter fun c => c.buildHash = buildHash
        if matchesBuild.length = 0 then
          { refused with
            reason := some .buildHashDrift
            certifiedBuildHash := candidates.head?.map Certificate.buildHash }
        else
          match env.getPlugin args.gameCode with
          | none => refused
          | some plugin => checkMatches refused plugin now matchesBuild

/-! ## Whether an engine may be made -/

variable {refused : BuildAttestationResult} {plugin : PluginCert} {now : Millis}
variable {matchesBuild : List Certificate}

theorem allowed_notLive : (notLive refused now matchesBuild).allowed = refused.allowed := by
  unfold notLive
  split <;> rfl

/-- For certificates of the running build an engine may be made when none of them names another
generator and one is in force, or when refusals do not count. -/
theorem allowed_checkMatches : (checkMatches refused plugin now matchesBuild).allowed = true ↔
    refused.allowed = true ∨
      (∀ c ∈ matchesBuild, c.mismatch plugin.rngVersion = false) ∧
        ∃ c ∈ matchesBuild, c.live now = true := by
  unfold checkMatches
  cases hmis : matchesBuild.find? (Certificate.mismatch plugin.rngVersion) with
  | some c =>
      have hc : c.mismatch plugin.rngVersion = true := List.find?_some hmis
      refine ⟨.inl, fun h => h.elim id fun h => ?_⟩
      rw [h.1 c (List.mem_of_find?_eq_some hmis)] at hc
      cases hc
  | none =>
      have hall : ∀ c ∈ matchesBuild, c.mismatch plugin.rngVersion = false := fun c hc => by
        simpa using List.find?_eq_none.mp hmis c hc
      cases hlive : matchesBuild.find? (Certificate.live now) with
      | some c =>
          have hc : c.live now = true := List.find?_some hlive
          exact ⟨fun _ => .inr ⟨hall, c, List.mem_of_find?_eq_some hlive, hc⟩, fun _ => rfl⟩
      | none =>
          simp only [allowed_notLive]
          refine ⟨.inl, fun h => h.elim id fun h => ?_⟩
          obtain ⟨-, c, hc, hl⟩ := h
          exact absurd hl (List.find?_eq_none.mp hlive c hc)

end YantraRgs.BuildAttestation
