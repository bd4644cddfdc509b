import YantraRgs.Services.BuildAttestation

/-! # Attested builds

A certificate of the running build that names another generator of random numbers refuses the engine,
whatever the others say and even when it has ended, and the beginning of a certificate's period is not
looked at.

* **`Covered`** — a certificate applies.
* **`ExactGate`** — the gate lets exactly the covered engines pass, and certificates that do not apply
  change nothing.
* **`Plain`** — the condition on the certificates.
* **`exactGate_iff`** — the two agree. -/

namespace YantraRgs.BuildAttestation

variable {env : Env} {args : CheckArgs} {now : Millis}
variable {certificates added candidates candidates' : List Certificate}

/-- A certificate for the game and the jurisdiction of a request, of the build that runs. -/
def Certificate.Built (env : Env) (args : CheckArgs) (c : Certificate) : Prop :=
  c.candidate args = true ∧ env.buildHash = some c.buildHash

/-- **A certificate applies**: it is of the running build and the game's generator, and in force. -/
structure Certificate.Applies (env : Env) (args : CheckArgs) (plugin : PluginCert) (now : Millis)
    (c : Certificate) : Prop where
  built : c.Built env args
  rng : c.rngVersion = none ∨ c.rngVersion = some plugin.rngVersion
  unrevoked : c.revokedAt = none
  begun : c.validFrom ≤ now
  unexpired : now < c.expiresAt

/-- **An engine is covered**: its game is registered, and some certificate applies. -/
def Covered (env : Env) (args : CheckArgs) (now : Millis) (certificates : List Certificate) : Prop :=
  ∃ plugin, env.getPlugin args.gameCode = some plugin ∧
    ∃ c ∈ certificates, c.Applies env args plugin now

/-- **The gate is exact** for some certificates, and adding certificates that do not apply does not
change its decision. -/
structure ExactGate (env : Env) (args : CheckArgs) (now : Millis)
    (certificates added candidates candidates' : List Certificate) : Prop where
  exact : (check env args now candidates).allowed = true ↔ Covered env args now certificates
  steady : (∀ c ∈ added, ¬ Covered env args now [c]) →
    (check env args now candidates').allowed = (check env args now candidates).allowed

/-- **The condition on the certificates** of a registered game: where one of the running build names
another generator, none of its build applies; and where none does and one is in force but for its
beginning, one of those has begun. -/
def Plain (env : Env) (args : CheckArgs) (now : Millis) (certificates : List Certificate) : Prop :=
  ∀ plugin, env.getPlugin args.gameCode = some plugin →
    ((∃ c ∈ certificates, c.Built env args ∧ c.mismatch plugin.rngVersion = true) →
      ∀ c ∈ certificates, ¬ c.Applies env args plugin now) ∧
    ((∀ c ∈ certificates, c.Built env args → c.mismatch plugin.rngVersion = false) →
      (∃ c ∈ certificates, c.Built env args ∧ c.live now = true) →
      ∃ c ∈ certificates, c.Built env args ∧ c.live now = true ∧ c.validFrom ≤ now)

/-! ## The decision -/

theorem IsAnswer.mem (h : IsAnswer certificates args candidates) {c : Certificate} :
    c ∈ candidates ↔ c ∈ certificates ∧ c.candidate args = true := by
  rw [h.1.mem_iff, List.mem_filter]

theorem mismatch_eq_false {liveRng : String} {c : Certificate} :
    c.mismatch liveRng = false ↔ c.rngVersion = none ∨ c.rngVersion = some liveRng := by
  rw [Certificate.mismatch, decide_eq_false_iff_not]
  tauto

theorem live_iff {c : Certificate} : c.live now = true ↔ c.revokedAt = none ∧ now < c.expiresAt :=
  decide_eq_true_iff

/-- **When strict mode lets an engine pass**: its game is registered, no certificate of the running
build names another generator, and one of them is neither revoked nor past its end. -/
theorem check_allowed_iff (hstrict : env.strictMode = true)
    (h : IsAnswer certificates args candidates) :
    (check env args now candidates).allowed = true ↔
      ∃ plugin, env.getPlugin args.gameCode = some plugin ∧
        (∀ c ∈ certificates, c.Built env args → c.mismatch plugin.rngVersion = false) ∧
        ∃ c ∈ certificates, c.Built env args ∧ c.live now = true := by
  unfold check
  cases hbuild : env.buildHash with
  | none =>
      simp only [hstrict, Bool.not_true, Bool.false_eq_true, false_iff]
      rintro ⟨-, -, -, c, -, hbuilt, -⟩
      rw [hbuilt.2] at hbuild
      cases hbuild
  | some buildHash =>
      have hmem : ∀ c, c ∈ candidates.filter (fun c => c.buildHash = buildHash) ↔
          c ∈ certificates ∧ c.Built env args := by
        intro c
        rw [List.mem_filter, h.mem, decide_eq_true_eq, Certificate.Built, hbuild, Option.some.injEq,
          eq_comm (a := buildHash), and_assoc]
      simp only [hstrict, Bool.not_true]
      by_cases hcand : candidates.length = 0
      · rw [if_pos hcand]
        simp only [Bool.false_eq_true, false_iff]
        rintro ⟨-, -, -, c, hc, hbuilt, -⟩
        have hin := h.mem.mpr ⟨hc, hbuilt.1⟩
        rw [List.length_eq_zero_iff.mp hcand] at hin
        cases hin
      rw [if_neg hcand]
      by_cases hempty : (candidates.filter fun c => c.buildHash = buildHash).length = 0
      · rw [if_pos hempty]
        simp only [Bool.false_eq_true, false_iff]
        rintro ⟨-, -, -, c, hc, hbuilt, -⟩
        have hin := (hmem c).mpr ⟨hc, hbuilt⟩
        rw [List.length_eq_zero_iff.mp hempty] at hin
        cases hin
      rw [if_neg hempty]
      cases hplugin : env.getPlugin args.gameCode with
      | none => simp
      | some plugin =>
          rw [allowed_checkMatches]
          simp only [hmem, Bool.false_eq_true, false_or, Option.some.injEq, exists_eq_left', and_imp,
            and_assoc]

/-! ## The condition -/

/-- **The gate is exact for some certificates** exactly when they are plain. -/
theorem exact_iff (hstrict : env.strictMode = true) (h : IsAnswer certificates args candidates) :
    ((check env args now candidates).allowed = true ↔ Covered env args now certificates) ↔
      Plain env args now certificates := by
  rw [check_allowed_iff hstrict h]
  unfold Covered Plain
  cases hplugin : env.getPlugin args.gameCode with
  | none => simp
  | some plugin =>
      simp only [Option.some.injEq, exists_eq_left', forall_eq']
      by_cases hall : ∀ c ∈ certificates, c.Built env args → c.mismatch plugin.rngVersion = false
      · have happlies : (∃ c ∈ certificates, c.Applies env args plugin now) ↔
            ∃ c ∈ certificates, c.Built env args ∧ c.live now = true ∧ c.validFrom ≤ now := by
          constructor
          · rintro ⟨c, hc, hbuilt, -, hunrevoked, hbegun, hunexpired⟩
            exact ⟨c, hc, hbuilt, live_iff.mpr ⟨hunrevoked, hunexpired⟩, hbegun⟩
          · rintro ⟨c, hc, hbuilt, hlive, hbegun⟩
            obtain ⟨hunrevoked, hunexpired⟩ := live_iff.mp hlive
            exact ⟨c, hc, hbuilt, mismatch_eq_false.mp (hall c hc hbuilt), hunrevoked, hbegun,
              hunexpired⟩
        have hnone : ¬ ∃ c ∈ certificates, c.Built env args ∧ c.mismatch plugin.rngVersion = true := by
          rintro ⟨c, hc, hbuilt, hmis⟩
          rw [hall c hc hbuilt] at hmis
          cases hmis
        rw [happlies]
        refine ⟨fun hexact => ⟨fun hmis => absurd hmis hnone, fun _ hlive => ?_⟩, fun hplain => ?_⟩
        · exact hexact.mp ⟨hall, hlive⟩
        · refine ⟨fun hlive => hplain.2 hall hlive.2, fun ⟨c, hc, hbuilt, hlive, _⟩ => ?_⟩
          exact ⟨hall, c, hc, hbuilt, hlive⟩
      · -- a certificate that names another generator refuses the engine
        have hmis : ∃ c ∈ certificates, c.Built env args ∧ c.mismatch plugin.rngVersion = true := by
          push Not at hall
          obtain ⟨c, hc, hbuilt, hmis⟩ := hall
          exact ⟨c, hc, hbuilt, by simpa using hmis⟩
        refine ⟨fun hexact => ⟨fun _ c hc happlies => ?_, fun h => absurd h hall⟩, fun hplain => ?_⟩
        · exact hall (hexact.mpr ⟨c, hc, happlies⟩).1
        · exact ⟨fun hallowed => absurd hallowed.1 hall,
            fun ⟨c, hc, happlies⟩ => absurd happlies (hplain.1 hmis c hc)⟩

/-- Certificates that do not apply do not cover an engine. -/
theorem covered_append (h : ∀ c ∈ added, ¬ Covered env args now [c]) :
    Covered env args now (certificates ++ added) ↔ Covered env args now certificates := by
  constructor
  · rintro ⟨plugin, hplugin, c, hc, happlies⟩
    rcases List.mem_append.mp hc with hc | hc
    · exact ⟨plugin, hplugin, c, hc, happlies⟩
    · exact absurd ⟨plugin, hplugin, c, List.mem_singleton_self c, happlies⟩ (h c hc)
  · rintro ⟨plugin, hplugin, c, hc, happlies⟩
    exact ⟨plugin, hplugin, c, List.mem_append_left added hc, happlies⟩

/-- **The gate is exact**, and certificates that do not apply do not change its decision, exactly when
the certificates are plain and stay so with the ones that are added. -/
theorem exactGate_iff (hstrict : env.strictMode = true) (h : IsAnswer certificates args candidates)
    (h' : IsAnswer (certificates ++ added) args candidates') :
    ExactGate env args now certificates added candidates candidates' ↔
      Plain env args now certificates ∧
        ((∀ c ∈ added, ¬ Covered env args now [c]) →
          Plain env args now (certificates ++ added)) := by
  rw [← exact_iff hstrict h, ← exact_iff hstrict h']
  constructor
  · intro hgate
    refine ⟨hgate.exact, fun hadded => ?_⟩
    rw [hgate.steady hadded, covered_append hadded]
    exact hgate.exact
  · rintro ⟨hexact, hsteady⟩
    refine ⟨hexact, fun hadded => Bool.eq_iff_iff.mpr ?_⟩
    rw [hsteady hadded, covered_append hadded, hexact]

/-! ## Certificates of one game -/

namespace Sample

/-- A server in strict mode. -/
def site : Env where
  BUILD_HASH := some "3f9c2a7"
  RGS_CERT_STRICT := some "1"
  getPlugin code := if code = "dice" then some ⟨"hmac-sha256-v2"⟩ else none

def request : CheckArgs := ⟨"operator", "dice", "LK"⟩

/-- A certificate in force. -/
def certificate : Certificate where
  id := "current"
  gameCode := "dice"
  jurisdiction := "LK"
  buildHash := "3f9c2a7"
  issuedAt := 2000
  validFrom := 2000
  expiresAt := 9000
  rngVersion := some "hmac-sha256-v2"
  revokedAt := none

/-- A certificate of the same build that has ended, for a generator that is no longer used. -/
def ended : Certificate :=
  { certificate with
    id := "ended", issuedAt := 1000, validFrom := 1000, expiresAt := 2000
    rngVersion := some "hmac-sha256-v1" }

theorem built : certificate.Built site request := ⟨by decide, by decide⟩

theorem isAnswer_one : IsAnswer [certificate] request [certificate] :=
  ⟨List.Perm.of_eq (by decide), List.pairwise_singleton _ _⟩

theorem isAnswer_both : IsAnswer ([certificate] ++ [ended]) request [certificate, ended] :=
  ⟨List.Perm.of_eq (by decide), by decide⟩

/-- A certificate in force is plain by itself. -/
theorem plain : Plain site request 5000 [certificate] := by
  intro plugin hplugin
  obtain rfl : ⟨"hmac-sha256-v2"⟩ = plugin := Option.some.inj hplugin
  refine ⟨?_, fun _ _ => ?_⟩
  · rintro ⟨c, hc, -, hmis⟩
    rw [List.mem_singleton.mp hc] at hmis
    exact absurd hmis (by decide)
  · exact ⟨certificate, List.mem_singleton_self _, built, by decide, by decide⟩

end Sample

/-- With one certificate in force the gate is exact. -/
theorem exactGate_iff_one :
    ExactGate Sample.site Sample.request 5000 [Sample.certificate] [] [Sample.certificate]
      [Sample.certificate] :=
  (exactGate_iff (by decide) Sample.isAnswer_one Sample.isAnswer_one).mpr
    ⟨Sample.plain, fun _ => Sample.plain⟩

/-- **A certificate that has ended refuses an engine** that another certificate covers. -/
theorem ended_certificate_vetoes : ¬ ∀ (env : Env) (args : CheckArgs) (now : Millis)
    (certificates added candidates candidates' : List Certificate), env.strictMode = true →
      IsAnswer certificates args candidates → IsAnswer (certificates ++ added) args candidates' →
      ExactGate env args now certificates added candidates candidates' := by
  intro h
  have hgate := h Sample.site Sample.request 5000 [Sample.certificate] [Sample.ended]
    [Sample.certificate] [Sample.certificate, Sample.ended] (by decide) Sample.isAnswer_one
    Sample.isAnswer_both
  have hadded : ∀ c ∈ [Sample.ended], ¬ Covered Sample.site Sample.request 5000 [c] := by
    rintro c hc ⟨plugin, -, d, hd, happlies⟩
    rw [List.mem_singleton.mp hc, List.mem_singleton] at hd
    rw [hd] at happlies
    exact absurd happlies.unexpired (by decide)
  exact absurd (hgate.steady hadded) (by decide)

end YantraRgs.BuildAttestation
