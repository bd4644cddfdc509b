import YantraRgs.Services.SigningKeys

/-! # The verification of launch tokens

Whoever sends a token chooses its three parts. The verification catches a part that is no JSON, and
little else.

* **`FailsClosed`** — there are no claims, or an object with them; nothing is thrown.
* **`Caught`** — what a token and the keys must not be.
* **`failsClosed_iff`** — the verification fails closed exactly there. -/

namespace YantraRgs.SigningKeys

/-- **A verification fails closed**: it answers nothing, or an object of claims. -/
def FailsClosed (result : Except String (Option Value)) : Prop :=
  result = .ok none ∨ ∃ es, result = .ok (some (.object es))

/-- A member of a value; only objects have any. -/
def member (v : Value) (name : String) : Option Value :=
  match v with
  | .object es => es.lookup name
  | _ => none

/-- Whether whatever a token and the keys bring is caught: the header is not `null`; the identifier in it
makes a filter; where a key is found, the signature has sixty-four bytes, the key can be imported and the
primitive takes both; and where the signature is good, claims that are JSON are an object. -/
def Caught (env : Env) (rows : List OperatorSigningKey) (operatorId : String) (token : Text)
    (now : Millis) : Prop :=
  ∀ h p s header, token.splitOn '.' = [h, p, s] →
    env.parseJson (env.utf8 (fromBase64Url h)) = some header →
      header ≠ .null ∧ ∃ filter, kidWhere env (member header "kid") = .ok filter ∧
        ∀ row, findKey rows operatorId filter now = some row →
          (fromBase64Url s).length = 64 ∧ ∃ publicKey, env.createPublicKey row.jwk = .ok publicKey ∧
            ∀ der, joseToDer (fromBase64Url s) = .ok der →
              ∃ good, env.verify publicKey (env.ofUtf8 (h ++ '.' :: p)) der = .ok good ∧
                (good = true → ∀ claims, env.parseJson (env.utf8 (fromBase64Url p)) = some claims →
                  ∃ es, claims = .object es)

variable {env : Env} {rows : List OperatorSigningKey} {operatorId : String} {token : Text} {now : Millis}

/-- Only `null` has no properties at all. -/
theorem property_eq {v : Value} (h : v ≠ .null) (name : String) : property v name = .ok (member v name) := by
  cases v <;> first | rfl | exact absurd rfl h

/-- Sixty-four bytes make a signature. -/
theorem joseToDer_isOk_iff {jose : List Byte} : (∃ der, joseToDer jose = .ok der) ↔ jose.length = 64 := by
  rw [joseToDer]
  by_cases h : jose.length = 64
  · rw [if_neg (not_not.mpr h)]
    exact iff_of_true ⟨_, rfl⟩ h
  · rw [if_pos h]
    exact iff_of_false (fun ⟨der, hder⟩ => by cases hder) h

theorem failsClosed_none : FailsClosed (.ok none) := Or.inl rfl

theorem not_failsClosed_error (e : String) : ¬ FailsClosed (.error e) := by
  rintro (h | ⟨es, h⟩)
  · cases h
  · cases h

theorem exists_ok_and {α : Type} {a : α} {q : α → Prop} :
    (∃ b, (Except.ok a : Except String α) = .ok b ∧ q b) ↔ q a := by
  constructor
  · rintro ⟨b, hb, hq⟩
    cases hb
    exact hq
  · exact fun hq => ⟨a, rfl, hq⟩

/-- Claims fail closed where they are no JSON or an object. -/
theorem failsClosed_claimsOf_iff (payload : Text) : FailsClosed (claimsOf env payload now) ↔
    ∀ claims, env.parseJson (env.utf8 (fromBase64Url payload)) = some claims →
      ∃ es, claims = .object es := by
  rw [claimsOf]
  split
  · next hnone =>
      refine iff_of_true failsClosed_none fun claims hclaims => ?_
      rw [hnone] at hclaims
      cases hclaims
  · next claims hclaims =>
      simp only [hclaims, Option.some.injEq, forall_eq']
      by_cases hnull : claims = .null
      · subst hnull
        refine iff_of_false (not_failsClosed_error _) ?_
        rintro ⟨es, h⟩
        cases h
      · have hread : ∀ name, property claims name = .ok (member claims name) := property_eq hnull
        rw [hread, ok_bind]
        constructor
        · -- what is answered is the claims themselves
          rintro (hresult | ⟨es, hresult⟩)
          · cases claims with
            | object es => exact ⟨es, rfl⟩
            | null => exact absurd rfl hnull
            | bool | number | string | bigint | date | array => cases hresult
          · cases claims with
            | object es' => exact ⟨es', rfl⟩
            | null => exact absurd rfl hnull
            | bool | number | string | bigint | date | array => cases hresult
        · rintro ⟨es, rfl⟩
          split
          · split
            · exact failsClosed_none
            · exact Or.inr ⟨es, rfl⟩
          · exact Or.inr ⟨es, rfl⟩

section Stages

variable {h p s : Text} {header : Value} (htoken : token.splitOn '.' = [h, p, s])
  (hheader : env.parseJson (env.utf8 (fromBase64Url h)) = some header)
include htoken hheader

/-- A header that is no `null` is asked for the identifier of its key. -/
theorem verifyCall_of_header (hnull : header ≠ .null) :
    verifyCall env rows operatorId token now = (do
      let filter ← kidWhere env (member header "kid")
      match findKey rows operatorId filter now with
      | none => pure none
      | some row => do
          let publicKey ← env.createPublicKey row.jwk
          let derSig ← joseToDer (fromBase64Url s)
          pure (some ⟨publicKey, h ++ '.' :: p, derSig, p⟩)) := by
  simp only [verifyCall, htoken, hheader, property_eq hnull]
  rfl

/-- What is caught once the parts of a token are known. -/
theorem caught_iff : Caught env rows operatorId token now ↔
    header ≠ .null ∧ ∃ filter, kidWhere env (member header "kid") = .ok filter ∧
      ∀ row, findKey rows operatorId filter now = some row →
        (fromBase64Url s).length = 64 ∧ ∃ publicKey, env.createPublicKey row.jwk = .ok publicKey ∧
          ∀ der, joseToDer (fromBase64Url s) = .ok der →
            ∃ good, env.verify publicKey (env.ofUtf8 (h ++ '.' :: p)) der = .ok good ∧
              (good = true → ∀ claims, env.parseJson (env.utf8 (fromBase64Url p)) = some claims →
                ∃ es, claims = .object es) := by
  constructor
  · intro hcaught
    exact hcaught h p s header htoken hheader
  · intro hall h' p' s' header' htoken' hheader'
    rw [htoken] at htoken'
    obtain ⟨rfl, rfl, rfl⟩ : h = h' ∧ p = p' ∧ s = s' := by simpa using htoken'
    rw [hheader] at hheader'
    obtain rfl := Option.some.inj hheader'
    exact hall

/-- **A token with a header** is verified closed exactly where the rest of it is caught. -/
theorem failsClosed_iff_of_header : FailsClosed (verifyLaunchJwt env rows operatorId token now) ↔
    Caught env rows operatorId token now := by
  rw [caught_iff htoken hheader]
  by_cases hnull : header = .null
  · have hthrow : verifyCall env rows operatorId token now =
        .error "Cannot read properties of null (reading 'kid')" := by
      subst hnull
      simp only [verifyCall, htoken, hheader]
      rfl
    rw [verifyLaunchJwt, hthrow]
    exact iff_of_false (not_failsClosed_error _) fun hall => hall.1 hnull
  · rw [and_iff_right hnull, verifyLaunchJwt, verifyCall_of_header htoken hheader hnull]
    rcases hfilter : kidWhere env (member header "kid") with e | filter
    · exact iff_of_false (not_failsClosed_error _) fun ⟨filter, h, _⟩ => by cases h
    · rw [exists_ok_and]
      rcases hrow : findKey rows operatorId filter now with _ | row
      · simp only [bind, Except.bind, hrow, pure, Except.pure]
        exact iff_of_true failsClosed_none fun row hrow => by cases hrow
      · simp only [bind, Except.bind, hrow, Option.some.injEq, forall_eq']
        rcases hkey : env.createPublicKey row.jwk with e | publicKey
        · exact iff_of_false (not_failsClosed_error _) fun ⟨_, _, h, _⟩ => by cases h
        · rw [exists_ok_and, ← joseToDer_isOk_iff]
          rcases hder : joseToDer (fromBase64Url s) with e | derSig
          · exact iff_of_false (not_failsClosed_error _) fun ⟨⟨_, h⟩, _⟩ => by cases h
          · rw [and_iff_right ⟨derSig, rfl⟩]
            simp only [Except.ok.injEq, forall_eq', pure, Except.pure]
            rcases hgood : env.verify publicKey (env.ofUtf8 (h ++ '.' :: p)) derSig with e | good
            · exact iff_of_false (not_failsClosed_error _) fun ⟨_, h, _⟩ => by cases h
            · rw [exists_ok_and]
              cases good with
              | false => exact iff_of_true failsClosed_none fun h => by cases h
              | true =>
                  rw [forall_prop_of_true rfl]
                  exact failsClosed_claimsOf_iff p

end Stages

/-- Texts of the first 128 characters, and signatures that no key verifies. -/
def sampleEnv : Env where
  Key := Unit
  ofUtf8 cs := cs.map fun c => Fin.ofNat 256 c.toNat
  utf8 bytes := bytes.map fun b => Char.ofNat b.val
  stringifyJson := canonicalJson
  parseJson := JsonParse.parse fun _ => none
  numberValue _ := 0
  sign _ _ := .error "Invalid key"
  createPublicKey _ := .error "Invalid key"
  verify _ _ _ := .ok false
  kidFilter _ := .error "Invalid value"

end YantraRgs.SigningKeys
