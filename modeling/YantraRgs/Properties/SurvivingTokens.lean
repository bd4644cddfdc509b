import YantraRgs.Properties.SignatureEncoding
import YantraRgs.Services.SigningKeyRotation
import YantraRgs.Text.Integer

/-! # Launch tokens survive rotations

A token is signed with an active key, which has no end. A rotation ends that key a grace period later,
and from then on nothing changes it. So a token that lives no longer than the grace period is verified
until it expires, however many rotations come in between.

* **`Inverts`** — what is taken from elsewhere: texts, secrets and signatures are undone as they were
  done.
* **`Sound`** — active keys have no end, and the key of every token ends no sooner than a grace period
  after the token was handed out.
* **`verify_of_issued`** — the verification of a token that was handed out. -/

namespace YantraRgs.SigningKeys

variable {env : KeyEnv} {graceMs : Millis} {s s' : KeyState}

/-! ## What is taken from elsewhere -/

/-- **What is undone as it was done**: texts and their bytes, JSON, numbers of seconds, secrets, and the
signature of a pair on the curve, as it comes out of a token and as its public part out of the table. -/
structure Inverts (env : KeyEnv) : Prop where
  utf8 : ∀ text, env.utf8 (env.ofUtf8 text) = text
  json : ∀ v : Value, v.isJson = true → env.parseJson (env.stringifyJson v) = some v
  number : ∀ n : Int, env.numberValue (.ofInt n) = n
  secret : ∀ iv text, env.decryptSecret (env.encryptSecret iv text) = .ok text
  signature : ∀ (row : OperatorSigningKey) (seed : env.Seed) input derSig joseSig derSig',
    row.publicJwk = jsonb .byLength (generateEs256Pair env row.kid seed).publicJwk →
    env.sign (generateEs256Pair env row.kid seed).privateJwk input = .ok derSig →
    derToJose derSig = .ok joseSig → joseToDer joseSig = .ok derSig' →
    ∃ key, env.createPublicKey row.jwk = .ok key ∧ env.verify key input derSig' = .ok true

/-! ## JSON objects -/

/-- The keys of an object after an entry joined it. -/
theorem map_fst_setEntry (es : List (String × Value)) (e : String × Value) :
    (JsonParse.setEntry es e).map Prod.fst =
      if es.any (·.1 = e.1) then es.map Prod.fst else es.map Prod.fst ++ [e.1] := by
  unfold JsonParse.setEntry
  split
  · rw [List.map_map]
    refine List.map_congr_left fun f _ => ?_
    show (if f.1 = e.1 then e else f).1 = f.1
    split
    · next h => exact h.symm
    · rfl
  · rw [List.map_append, List.map_singleton]

/-- An object with one more entry is a JSON value. -/
theorem isJson_setEntry {es : List (String × Value)} {e : String × Value}
    (h : (Value.object es).isJson = true) (he : e.2.isJson = true) :
    (Value.object (JsonParse.setEntry es e)).isJson = true := by
  obtain ⟨hnodup, hmembers⟩ := isJson_object_iff.mp h
  refine isJson_object_iff.mpr ⟨?_, fun f hf => ?_⟩
  · rw [map_fst_setEntry]
    split
    · exact hnodup
    · next hnew =>
        rw [← List.map_singleton, ← List.map_append]
        refine Table.nodup_map_concat hnodup fun f hf hkey => hnew ?_
        exact List.any_eq_true.mpr ⟨f, hf, decide_eq_true hkey⟩
  · unfold JsonParse.setEntry at hf
    split at hf
    · obtain ⟨g, hg, rfl⟩ := List.mem_map.mp hf
      split
      · exact he
      · exact hmembers g hg
    · rcases List.mem_append.mp hf with hf | hf
      · exact hmembers f hf
      · rw [List.mem_singleton.mp hf]
        exact he

/-- An entry that joined an object is found in it. -/
theorem lookup_setEntry (es : List (String × Value)) (key : String) (v : Value) :
    (JsonParse.setEntry es (key, v)).lookup key = some v := by
  unfold JsonParse.setEntry
  induction es with
  | nil => simp
  | cons f es ih =>
      obtain ⟨k, u⟩ := f
      by_cases hk : k = key
      · simp [hk]
      · have hne : (key == k) = false := by simpa using Ne.symm hk
        simp only [List.any_cons, hk, decide_false, Bool.false_or, List.map_cons, if_false,
          List.cons_append] at ih ⊢
        split at ih
        · next hany => rw [if_pos hany, List.lookup_cons, hne, ih]
        · next hany => rw [if_neg hany, List.lookup_cons, hne, ih]

/-- An object of texts under different names is a JSON value. -/
theorem isJson_texts {es : List (String × String)} (h : (es.map Prod.fst).Nodup) :
    (Value.object (texts es)).isJson = true := by
  refine isJson_object_iff.mpr ⟨?_, fun e he => ?_⟩
  · rw [texts, List.map_map]
    exact h
  · obtain ⟨f, -, rfl⟩ := List.mem_map.mp he
    rfl

/-- So is an exported key with some members set. -/
theorem isJson_withMembers (jwk : ExportedJwk) (es : List (String × String)) :
    (jwk.withMembers es).isJson = true := by
  suffices h : ∀ es fs, (Value.object fs).isJson = true →
      (Value.object ((texts es).foldl JsonParse.setEntry fs)).isJson = true from
    h es _ (isJson_texts jwk.distinct)
  intro es
  induction es with
  | nil => exact fun _ h => h
  | cons e es ih => exact fun fs h => ih _ (isJson_setEntry h rfl)

/-- The claims of a token are a JSON value. -/
theorem Issued.isJson_claims (t : Issued) : t.claims.isJson = true :=
  isJson_setEntry (isJson_setEntry t.payload.isJson rfl) rfl

/-! ## The verification of a token -/

/-- **A key that signed a token**: it was made as keys on the curve are, and the token was signed with
its private part. -/
structure Signed (env : KeyEnv) (row : OperatorSigningKey) (t : Issued) : Prop where
  operatorId : row.operatorId = t.operatorId
  token : ∃ (seed : env.Seed) (algorithm : String),
    row.publicJwk = jsonb .byLength (generateEs256Pair env row.kid seed).publicJwk ∧
    signLaunchJwt env.toEnv
      ⟨row.kid, algorithm, (generateEs256Pair env row.kid seed).privateJwk⟩ t.payload.entries
      t.expiresInSec t.issuedAt = .ok t.token

/-- A key that verifies until a time. -/
structure Lasts (row : OperatorSigningKey) (until' : Millis) : Prop where
  status : row.status ≠ .retired
  notAfter : ∀ e ∈ row.notAfter, until' ≤ e

/-- A number of a signature takes thirty-two bytes. -/
theorem length_of_padTo32 {n padded : List Byte} (h : padTo32 n = .ok padded) :
    padded.length = 32 := by
  unfold padTo32 at h
  split at h
  · cases h
  · next hshort =>
      obtain rfl := Except.ok.inj h
      rw [List.length_append, List.length_replicate]
      omega

/-- A signature that was taken apart can be put together. -/
theorem joseToDer_of_derToJose {der jose : List Byte} (h : derToJose der = .ok jose) :
    ∃ der', joseToDer jose = .ok der' := by
  unfold derToJose at h
  split at h
  · cases h
  · obtain ⟨r, hr, h⟩ := bind_eq_ok h
    obtain ⟨s, hs, h⟩ := bind_eq_ok h
    obtain rfl := Except.ok.inj h
    have hlen : ¬ (r ++ s).length ≠ 64 := by
      rw [List.length_append, length_of_padTo32 hr, length_of_padTo32 hs]
      exact fun h => h rfl
    rw [joseToDer, if_neg hlen]
    exact ⟨_, rfl⟩

/-- **The key under an identifier is found** as long as it lasts, where no two keys have it. -/
theorem findKey_of_mem {rows : List OperatorSigningKey} {row : OperatorSigningKey} {now : Millis}
    (hkids : (rows.map OperatorSigningKey.kid).Nodup) (hrow : row ∈ rows) {until' : Millis}
    (hlasts : Lasts row until') (hnow : now < until') :
    findKey rows row.operatorId (· = row.kid) now = some row := by
  have hfit : (row.operatorId = row.operatorId && decide (row.kid = row.kid) &&
      row.status ∈ [SigningKeyStatus.active, .retiring] && row.notAfter.all (now < ·)) = true := by
    have hstatus : row.status ∈ [SigningKeyStatus.active, .retiring] := by
      have hnot := hlasts.status
      cases hcase : row.status with
      | active => decide
      | retiring => decide
      | retired => exact absurd hcase hnot
    have hend : row.notAfter.all (now < ·) = true := by
      rw [Option.all_eq_true]
      exact fun e he => decide_eq_true (lt_of_lt_of_le hnow (hlasts.notAfter e he))
    simp [hstatus, hend]
  have hsome : (findKey rows row.operatorId (· = row.kid) now).isSome = true := by
    rw [findKey, List.find?_isSome]
    exact ⟨row, hrow, hfit⟩
  obtain ⟨other, hfound⟩ := Option.isSome_iff_exists.mp hsome
  have hkid : other.kid = row.kid := by
    have hother := List.find?_some hfound
    simp only [Bool.and_eq_true, decide_eq_true_eq] at hother
    exact hother.1.1.2
  rw [hfound, List.inj_on_of_nodup_map hkids (List.mem_of_find?_eq_some hfound) hrow hkid]

/-- The header of a token. -/
def header (algorithm kid : String) : Value :=
  .object [("alg", .string algorithm), ("typ", .string "JWT"), ("kid", .string kid)]

theorem isJson_header (algorithm kid : String) : (header algorithm kid).isJson = true := by
  show (Value.object (texts [("alg", algorithm), ("typ", "JWT"), ("kid", kid)])).isJson = true
  exact isJson_texts (show ["alg", "typ", "kid"].Nodup by decide)

/-- The text of a JSON value is read back from a token. -/
theorem parseJson_b64urlJson (hinverts : Inverts env) {v : Value} (hv : v.isJson = true) :
    env.parseJson (env.utf8 (fromBase64Url (b64urlJson env.toEnv v))) = some v := by
  rw [b64urlJson, fromBase64Url_toBase64Url, hinverts.utf8, hinverts.json v hv]

/-- **A token is verified** with the key that signed it, until it expires. -/
theorem verify_of_signed (hinverts : Inverts env) {rows : List OperatorSigningKey}
    {row : OperatorSigningKey} {t : Issued} {now : Millis} (hsigned : Signed env row t)
    (hfound : findKey rows t.operatorId (· = row.kid) now = some row)
    (hnow : (now : Int) < t.exp * 1000) :
    verifyLaunchJwt env.toEnv rows t.operatorId t.token now = .ok (some t.claims) := by
  obtain ⟨seed, algorithm, hpublic, htoken⟩ := hsigned.token
  obtain ⟨derSig, hsign, htoken⟩ := bind_eq_ok htoken
  obtain ⟨joseSig, hjose, htoken⟩ := bind_eq_ok htoken
  obtain ⟨derSig', hder⟩ := joseToDer_of_derToJose hjose
  obtain ⟨key, hkey, hverify⟩ := hinverts.signature row seed _ _ _ _ hpublic hsign hjose hder
  have hcall : verifyCall env.toEnv rows t.operatorId t.token now =
      .ok (some ⟨key, signingInput env.toEnv ⟨row.kid, algorithm,
        (generateEs256Pair env row.kid seed).privateJwk⟩ t.payload.entries t.expiresInSec t.issuedAt,
        derSig', b64urlJson env.toEnv t.claims⟩) := by
    have hkid : property (header algorithm row.kid) "kid" = .ok (some (.string row.kid)) := rfl
    have hparts : t.token.splitOn '.' = [b64urlJson env.toEnv (header algorithm row.kid),
        b64urlJson env.toEnv t.claims, toBase64Url joseSig] := by
      rw [← Except.ok.inj htoken]
      exact splitOn_token _ _ _
    unfold verifyCall
    rw [hparts]
    dsimp only
    rw [parseJson_b64urlJson hinverts (isJson_header _ _)]
    dsimp only
    rw [hkid, ok_bind, kidWhere, ok_bind, hfound]
    dsimp only
    rw [hkey, fromBase64Url_toBase64Url, hder]
    rfl
  have hclaims : claimsOf env.toEnv (b64urlJson env.toEnv t.claims) now = .ok (some t.claims) := by
    have hexp : property t.claims "exp" = .ok (some (.number (.ofInt t.exp))) :=
      congrArg Except.ok (lookup_setEntry _ "exp" _)
    unfold claimsOf
    rw [parseJson_b64urlJson hinverts t.isJson_claims]
    dsimp only
    rw [hexp]
    show (if env.numberValue (.ofInt t.exp) * 1000 < now then _ else _) = _
    rw [hinverts.number, if_neg]
    · rfl
    · rw [not_lt]
      exact_mod_cast hnow.le
  rw [verifyLaunchJwt, hcall]
  show (env.verify key _ derSig').bind _ = _
  rw [hverify]
  exact hclaims

/-! ## The invariant -/

/-- A key as it was made and stored. -/
structure Made (env : KeyEnv) (row : KeyRow) (seed : env.Seed) : Prop where
  publicJwk : row.publicJwk = jsonb .byLength (generateEs256Pair env row.kid seed).publicJwk
  secret : ∃ iv, row.privateJwkCipher =
    env.encryptSecret iv (env.stringifyJson (generateEs256Pair env row.kid seed).privateJwk)

/-- **What holds between operations**: no two keys have one identifier, active ones have no end, and
every token was signed with a key that verifies for the grace period. -/
structure Sound (env : KeyEnv) (graceMs : Millis) (s : KeyState) : Prop where
  kids : (s.keys.map fun row => row.kid).Nodup
  made : ∀ row ∈ s.keys, ∃ seed, Made env row seed
  active : ∀ row ∈ s.keys, row.status = .active → row.notAfter = none
  past : ∀ t ∈ s.issued, t.issuedAt ≤ s.now
  signed : ∀ t ∈ s.issued, ∃ row ∈ s.keys, Signed env row.toOperatorSigningKey t ∧
    Lasts row.toOperatorSigningKey (t.issuedAt + graceMs)

/-- The invariant at the start. -/
theorem sound_initial (now : Millis) : Sound env graceMs (.initial now) :=
  ⟨List.nodup_nil, fun _ h => (nomatch h), fun _ h => (nomatch h), fun _ h => (nomatch h),
    fun _ h => (nomatch h)⟩

/-- A row that joined the table, and that its identifier was free. -/
theorem create_eq_ok {keys keys' : List KeyRow} {row : KeyRow} (h : create keys row = .ok keys') :
    keys' = keys ++ [row] ∧ ∀ other ∈ keys, other.kid ≠ row.kid := by
  unfold create at h
  split at h
  · cases h
  · next hnew =>
      refine ⟨(Except.ok.inj h).symm, fun other hother hkid => hnew ?_⟩
      exact List.any_eq_true.mpr ⟨other, hother, decide_eq_true hkid⟩

/-- A new key on the curve is stored as it was made. -/
theorem made_newRow (env : KeyEnv) (operatorId : String) (algorithm : SigningAlgorithm) (kid : String)
    (seed : env.Seed) (iv : Vector Byte 12) (now : Millis) :
    Made env (newRow env operatorId algorithm kid (generateEs256Pair env kid seed) iv now) seed :=
  ⟨rfl, iv, rfl⟩

/-- **A key joins the table.** -/
theorem Sound.create (h : Sound env graceMs s) {row : KeyRow} {keys : List KeyRow}
    (hcreate : create s.keys row = .ok keys) (hmade : ∃ seed, Made env row seed)
    (hend : row.notAfter = none) : Sound env graceMs { s with keys } := by
  obtain ⟨rfl, hnew⟩ := create_eq_ok hcreate
  refine ⟨?_, fun other hother => ?_, fun other hother => ?_, h.past, fun t ht => ?_⟩
  · exact Table.nodup_map_concat h.kids hnew
  · rcases List.mem_append.mp hother with hother | hother
    · exact h.made other hother
    · rw [List.mem_singleton.mp hother]
      exact hmade
  · rcases List.mem_append.mp hother with hother | hother
    · exact h.active other hother
    · rw [List.mem_singleton.mp hother]
      exact fun _ => hend
  · obtain ⟨other, hother, hsigned⟩ := h.signed t ht
    exact ⟨other, List.mem_append_left _ hother, hsigned⟩

/-- **A key is ended** a grace period from now: that is late enough for every token of it. -/
theorem Sound.retire (h : Sound env graceMs s) (n : Nat) :
    Sound env graceMs { s with keys := s.keys.modify n (·.retire (s.now + graceMs)) } := by
  refine ⟨?_, fun row hrow => ?_, fun row hrow hactive => ?_, h.past, fun t ht => ?_⟩
  · show ((s.keys.modify n _).map fun row => row.kid).Nodup
    rw [Table.map_modify_of_eq (f := (·.retire (s.now + graceMs))) (g := fun row : KeyRow => row.kid)
      (fun _ => rfl)]
    exact h.kids
  · rcases Table.mem_modify_cases hrow with hrow | ⟨old, hold, rfl⟩
    · exact h.made row hrow
    · obtain ⟨seed, hmade⟩ := h.made old hold
      exact ⟨seed, hmade.publicJwk, hmade.secret⟩
  · rcases Table.mem_modify_cases hrow with hrow | ⟨old, hold, rfl⟩
    · exact h.active row hrow hactive
    · cases hactive
  · obtain ⟨row, hrow, hsigned, hlasts⟩ := h.signed t ht
    rcases Table.mem_modify_of_mem hrow n (·.retire (s.now + graceMs)) with hsame | hended
    · exact ⟨row, hsame, hsigned, hlasts⟩
    · refine ⟨_, hended, ⟨hsigned.operatorId, hsigned.token⟩, nofun, ?_⟩
      rintro e ⟨⟩
      exact Nat.add_le_add_right (h.past t ht) graceMs

/-- **A token is handed out** that was signed with a key of the table. -/
theorem Sound.issue (h : Sound env graceMs s) {row : KeyRow} (hrow : row ∈ s.keys) {t : Issued}
    (hsigned : Signed env row.toOperatorSigningKey t) (hactive : row.status = .active)
    (hnow : t.issuedAt = s.now) : Sound env graceMs { s with issued := s.issued ++ [t] } := by
  refine ⟨h.kids, h.made, h.active, fun u hu => ?_, fun u hu => ?_⟩
  · rcases List.mem_append.mp hu with hu | hu
    · exact h.past u hu
    · rw [List.mem_singleton.mp hu, hnow]
  · rcases List.mem_append.mp hu with hu | hu
    · exact h.signed u hu
    · rw [List.mem_singleton.mp hu]
      refine ⟨row, hrow, hsigned, ?_, ?_⟩
      · show row.status ≠ .retired
        rw [hactive]
        nofun
      · show ∀ e ∈ row.notAfter, _
        rw [h.active row hrow hactive]
        nofun

/-! ## The operations keep it -/

/-- **The key that signs** stands in the table as it was made, and is active. -/
theorem Sound.getActiveSigningKey (h : Sound env graceMs s) (hinverts : Inverts env)
    {operatorId : String} {found : Option Nat} {draw : KeyDraw env}
    (hfound : findsNewest s.keys (signs operatorId .es256 s.now) found = true)
    {key : Except String ActiveKey} {keys : List KeyRow}
    (hget : SigningKeys.getActiveSigningKey env s.keys operatorId .es256 s.now found draw =
      (key, keys)) :
    Sound env graceMs { s with keys } ∧ ∀ k, key = .ok k → ∃ row ∈ keys, ∃ seed,
      row.operatorId = operatorId ∧ row.status = .active ∧ Made env row seed ∧ k.kid = row.kid ∧
        k.privateJwk = (generateEs256Pair env row.kid seed).privateJwk := by
  unfold SigningKeys.getActiveSigningKey at hget
  split at hget
  · -- the key that the query found
    next existing hexisting =>
    obtain ⟨n, rfl, hrow⟩ := Option.bind_eq_some_iff.mp hexisting
    have hmem := List.mem_of_getElem? hrow
    obtain ⟨hkey, rfl⟩ := Prod.mk.inj hget
    refine ⟨h, fun k hk => ?_⟩
    rw [findsNewest, hrow, Option.any_some, Bool.and_eq_true] at hfound
    have hsigns := hfound.1
    simp only [signs, Bool.and_eq_true, decide_eq_true_eq] at hsigns
    obtain ⟨seed, hmade⟩ := h.made existing hmem
    refine ⟨existing, hmem, seed, hsigns.1.1.1, hsigns.1.1.2, hmade, ?_⟩
    obtain ⟨iv, hcipher⟩ := hmade.secret
    have hprivate : (generateEs256Pair env existing.kid seed).privateJwk.isJson = true :=
      isJson_withMembers _ _
    rw [hk, KeyRow.activeKey, hcipher, hinverts.secret, ok_bind, hinverts.json _ hprivate] at hkey
    obtain rfl := Except.ok.inj hkey
    exact ⟨rfl, rfl⟩
  · -- a new key
    dsimp only at hget
    split at hget
    · obtain ⟨rfl, rfl⟩ := Prod.mk.inj hget
      exact ⟨h, fun _ hk => by cases hk⟩
    · next keys' hcreate =>
      obtain ⟨rfl, rfl⟩ := Prod.mk.inj hget
      have hmade := made_newRow env operatorId .es256 draw.kid draw.seed draw.iv s.now
      refine ⟨h.create hcreate ⟨_, hmade⟩ rfl, fun k hk => ?_⟩
      obtain rfl := Except.ok.inj hk
      obtain ⟨rfl, -⟩ := create_eq_ok hcreate
      exact ⟨_, List.mem_append_right _ (List.mem_singleton_self _), draw.seed, rfl, rfl, hmade, rfl,
        rfl⟩

/-- **Every operation keeps the invariant.** -/
theorem Sound.apply (h : Sound env graceMs s) (hinverts : Inverts env) {op : Operation env}
    (hop : op.apply graceMs s = some s') : Sound env graceMs s' := by
  cases op with
  | wait ms =>
      obtain rfl := Option.some.inj hop
      exact ⟨h.kids, h.made, h.active, fun t ht => (h.past t ht).trans (Nat.le_add_right _ _),
        h.signed⟩
  | verify operatorId token => exact Option.some.inj hop ▸ h
  | sign operatorId payload expiresInSec found draw =>
      rw [Operation.apply] at hop
      split at hop
      case isFalse => cases hop
      rename_i hfound
      rcases hget : SigningKeys.getActiveSigningKey env s.keys operatorId .es256 s.now found draw
        with ⟨key, keys⟩
      obtain ⟨hkeys, hsigner⟩ := h.getActiveSigningKey hinverts hfound hget
      rw [hget] at hop
      dsimp only at hop
      split at hop
      · exact Option.some.inj hop ▸ hkeys
      · next token htoken =>
        obtain rfl := Option.some.inj hop
        obtain ⟨k, hk, htoken⟩ := bind_eq_ok htoken
        obtain ⟨row, hrow, seed, hoperator, hactive, hmade, hkid, hprivate⟩ := hsigner k hk
        refine hkeys.issue hrow ⟨hoperator, seed, k.algorithm, hmade.publicJwk, ?_⟩ hactive rfl
        rw [← hkid, ← hprivate] at *
        exact htoken
  | rotate operatorId algorithm found draw =>
      rw [Operation.apply] at hop
      split at hop
      case isFalse => cases hop
      split at hop
      · exact Option.some.inj hop ▸ h
      · next keys hrotate =>
        obtain rfl := Option.some.inj hop
        unfold rotateSigningKey at hrotate
        have hmade := made_newRow env operatorId algorithm draw.kid draw.seed draw.iv s.now
        cases found with
        | none => exact h.create hrotate ⟨_, hmade⟩ rfl
        | some n => exact (h.retire n).create hrotate ⟨_, hmade⟩ rfl

/-- **Operations keep the invariant**, one after another. -/
theorem Sound.perform (hinverts : Inverts env) {ops : List (Operation env)}
    (h : Sound env graceMs s) (hops : perform graceMs s ops = some s') : Sound env graceMs s' := by
  induction ops generalizing s with
  | nil => exact Option.some.inj hops ▸ h
  | cons op ops ih =>
      obtain ⟨next, hop, hrest⟩ := Option.bind_eq_some_iff.mp hops
      exact ih (h.apply hinverts hop) hrest

/-! ## Tokens survive -/

/-- **Launch tokens survive**: each that was handed out for no longer than the grace period is verified
until it expires. -/
def TokensSurvive (env : KeyEnv) (graceMs : Millis) (s : KeyState) : Prop :=
  ∀ t ∈ s.issued, t.expiresInSec * 1000 ≤ graceMs → (s.now : Int) < t.exp * 1000 →
    verifyLaunchJwt env.toEnv s.rows t.operatorId t.token s.now = .ok (some t.claims)

namespace Sample

mutual

/-- A value as its text shows it, in the order of its entries. -/
def shown : Value → Tree
  | .null => .null
  | .bool b => .bool b
  | .number n => .number n
  | .string s => .string s
  | .bigint n => .string (toString n)
  | .date t => .string (String.ofList (toISOString t))
  | .array vs => .array (shownElements vs)
  | .object es => .object (shownEntries es)

/-- The elements of an array. -/
def shownElements : List Value → List Tree
  | [] => []
  | v :: vs => shown v :: shownElements vs

/-- The entries of an object. -/
def shownEntries : List (String × Value) → List (String × Tree)
  | [] => []
  | e :: es => (e.1, shown e.2) :: shownEntries es

end

/-- A number is read as it stands. -/
def readNumber (text : Text) : Option Numeral := plainNumeral text

theorem map_fst_shownEntries (es : List (String × Value)) :
    (shownEntries es).map Prod.fst = es.map Prod.fst := by
  induction es with
  | nil => rfl
  | cons e es ih => rw [shownEntries, List.map_cons, List.map_cons, ih]

mutual

/-- A JSON value's text shows it. -/
theorem readable_shown : ∀ v : Value, v.isJson = true →
    (shown v).Readable readNumber ∧ (shown v).value = v
  | .null, _ => ⟨trivial, rfl⟩
  | .bool _, _ => ⟨trivial, rfl⟩
  | .number n, _ => ⟨dif_pos ⟨n.nonempty, n.plain⟩, rfl⟩
  | .string _, _ => ⟨trivial, rfl⟩
  | .bigint _, h => (nomatch h)
  | .date _, h => (nomatch h)
  | .array vs, h =>
      have hvs := readable_shownElements vs h
      ⟨hvs.1, congrArg Value.array hvs.2⟩
  | .object es, h => by
      rw [Value.isJson, Bool.and_eq_true, decide_eq_true_iff] at h
      have hes := readable_shownEntries es h.2
      exact ⟨⟨by rw [map_fst_shownEntries]; exact h.1, hes.1⟩, congrArg Value.object hes.2⟩

theorem readable_shownElements : ∀ vs : List Value, areJson vs = true →
    ElementsReadable readNumber (shownElements vs) ∧ elementValues (shownElements vs) = vs
  | [], _ => ⟨trivial, rfl⟩
  | v :: vs, h => by
      rw [areJson, Bool.and_eq_true] at h
      have hv := readable_shown v h.1
      have hvs := readable_shownElements vs h.2
      refine ⟨⟨hv.1, hvs.1⟩, ?_⟩
      rw [shownElements, elementValues, hv.2, hvs.2]

theorem readable_shownEntries : ∀ es : List (String × Value), membersAreJson es = true →
    EntriesReadable readNumber (shownEntries es) ∧ entryValues (shownEntries es) = es
  | [], _ => ⟨trivial, rfl⟩
  | e :: es, h => by
      rw [membersAreJson, Bool.and_eq_true] at h
      have he := readable_shown e.2 h.1
      have hes := readable_shownEntries es h.2
      refine ⟨⟨he.1, hes.1⟩, ?_⟩
      rw [shownEntries, entryValues, he.2, hes.2]

end

/-- The bytes of a text: one for each of the first 128 characters, four for any other. -/
def ofUtf8 (text : Text) : List Byte :=
  text.flatMap fun c =>
    if c.toNat < 128 then [Fin.ofNat 256 c.toNat] else 0xF0 :: bigEndian 3 c.toNat

/-- The text of some bytes. -/
def utf8 : List Byte → Text
  | [] => []
  | a :: rest =>
      if a.val < 128 then Char.ofNat a.val :: utf8 rest
      else
        match rest with
        | b :: c :: d :: rest => Char.ofNat ((b.val * 256 + c.val) * 256 + d.val) :: utf8 rest
        | _ => []

theorem utf8_cons_of_lt {a : Byte} (h : a.val < 128) (rest : List Byte) :
    utf8 (a :: rest) = Char.ofNat a.val :: utf8 rest := by
  rw [utf8.eq_def]
  exact if_pos h

theorem utf8_ofUtf8 (text : Text) : utf8 (ofUtf8 text) = text := by
  induction text with
  | nil => rfl
  | cons c text ih =>
      have htext : ofUtf8 (c :: text) =
          (if c.toNat < 128 then [Fin.ofNat 256 c.toNat] else 0xF0 :: bigEndian 3 c.toNat) ++
            ofUtf8 text := List.flatMap_cons
      by_cases hc : c.toNat < 128
      · have hval : (Fin.ofNat 256 c.toNat).val = c.toNat := Nat.mod_eq_of_lt (by omega)
        rw [htext, if_pos hc, List.singleton_append, utf8_cons_of_lt (hval.symm ▸ hc), hval,
          Char.ofNat_toNat, ih]
      · have hsmall : c.toNat < 0x110000 := by
          show c.val.toNat < _
          rcases c.valid with h | h
          · exact lt_trans h (by norm_num)
          · exact h.2
        have hval : ((c.toNat / 256 ^ 2 % 256) * 256 + c.toNat / 256 ^ 1 % 256) * 256 +
            c.toNat / 256 ^ 0 % 256 = c.toNat := by omega
        rw [htext, if_neg hc]
        show utf8 (0xF0 :: Fin.ofNat 256 (c.toNat / 256 ^ 2) :: Fin.ofNat 256 (c.toNat / 256 ^ 1) ::
          Fin.ofNat 256 (c.toNat / 256 ^ 0) :: ofUtf8 text) = _
        rw [utf8, if_neg (by decide)]
        show Char.ofNat (((c.toNat / 256 ^ 2 % 256) * 256 + c.toNat / 256 ^ 1 % 256) * 256 +
          c.toNat / 256 ^ 0 % 256) :: utf8 (ofUtf8 text) = _
        rw [hval, Char.ofNat_toNat, ih]

/-- The text that an object has under a name. -/
def member (v : Value) (name : String) : Except String String :=
  match v with
  | .object es =>
      match es.lookup name with
      | some (.string s) => .ok s
      | _ => .error "Invalid JWK data"
  | _ => .error "Invalid JWK data"

/-- The signature under a key: two numbers of full length, one of which the input determines. -/
def signature (kid : String) (input : List Byte) : List Byte :=
  derSignature (2 ^ 255 + (ofUtf8 kid.toList ++ input).foldl (fun n b => (n * 257 + b.val) % 2 ^ 64) 0)
    (2 ^ 255)

theorem signature_eq (kid : String) (input : List Byte) :
    ∃ m < 2 ^ 64, signature kid input = derSignature (2 ^ 255 + m) (2 ^ 255) := by
  refine ⟨_, ?_, rfl⟩
  rcases List.eq_nil_or_concat (ofUtf8 kid.toList ++ input) with hnil | ⟨bytes, b, hconcat⟩
  · rw [hnil]
    norm_num
  · rw [hconcat, List.concat_eq_append, List.foldl_append]
    exact Nat.mod_lt _ (by norm_num)

/-- The primitives. A key is known by its identifier. -/
def primitives : KeyEnv where
  Key := String
  Seed := Unit
  ofUtf8 := ofUtf8
  utf8 := utf8
  stringifyJson v := (shown v).print
  parseJson := JsonParse.parse readNumber
  numberValue n := ((BigInt.ofText n.text).getD 0 : Int)
  sign privateJwk input := (member privateJwk "kid").map fun kid => signature kid input
  createPublicKey publicJwk := member publicJwk "kid"
  verify kid input derSig := .ok (decide (derSig = signature kid input))
  kidFilter _ := .error "Invalid value"
  generateEc _ :=
    ⟨⟨[("kty", "EC"), ("crv", "P-256"), ("x", "AQ"), ("y", "Ag")], by decide⟩,
      ⟨[("kty", "EC"), ("crv", "P-256"), ("x", "AQ"), ("y", "Ag"), ("d", "Aw")], by decide⟩⟩
  generateRsa _ := ⟨⟨[("kty", "RSA")], by decide⟩, ⟨[("kty", "RSA")], by decide⟩⟩
  encryptSecret iv text := iv.toList ++ ofUtf8 text
  decryptSecret bytes := .ok (utf8 (bytes.drop 12))

/-- An entry of another name. -/
theorem lookup_setEntry_ne (es : List (String × Value)) (e : String × Value) {key : String}
    (h : e.1 ≠ key) : (JsonParse.setEntry es e).lookup key = es.lookup key := by
  have hne : (key == e.1) = false := by simpa using Ne.symm h
  unfold JsonParse.setEntry
  split
  · clear * - hne h
    induction es with
    | nil => rfl
    | cons f es ih =>
        by_cases hf : f.1 = e.1
        · rw [List.map_cons, if_pos hf, List.lookup_cons, List.lookup_cons, hne, hf, hne, ih]
        · rw [List.map_cons, if_neg hf, List.lookup_cons, List.lookup_cons, ih]
  · rw [List.lookup_append, List.lookup_cons, hne, List.lookup_nil, Option.or_none]

/-- What is taken from elsewhere is undone as it was done. -/
theorem inverts_primitives : Inverts primitives where
  utf8 := utf8_ofUtf8
  json v hv := by
    have hshown := readable_shown v hv
    show JsonParse.parse readNumber (shown v).print = some v
    rw [JsonParse.parse_print hshown.1, hshown.2]
  number n := by
    show (((BigInt.ofText (toString n).toList).getD 0 : Int) : Rat) = n
    cases n with
    | ofNat n =>
        change (((BigInt.ofText (toString n).toList).getD 0 : Int) : Rat) = _
        rw [toList_toString_nat, BigInt.ofText_toDigits]
        rfl
    | negSucc n =>
        rw [toList_toString_negSucc, BigInt.ofText_neg]
        rfl
  secret iv text := by
    show Except.ok (utf8 ((iv.toList ++ ofUtf8 text).drop 12)) = _
    rw [List.drop_left' iv.length_toList, utf8_ofUtf8]
  signature row seed input derSig joseSig derSig' hpublic hsign hjose hder := by
    have hmember : member row.jwk "kid" = .ok row.kid := by
      rw [OperatorSigningKey.jwk, hpublic]
      show (match (JsonParse.setEntry _ ("kid", .string row.kid)).lookup "kid" with
        | some (.string s) => Except.ok s
        | _ => _) = _
      rw [lookup_setEntry]
    have hprivate : member (generateEs256Pair primitives row.kid seed).privateJwk "kid" =
        .ok row.kid := by
      simp only [generateEs256Pair, ExportedJwk.withMembers, texts, List.map_cons, List.map_nil,
        List.foldl_cons, List.foldl_nil, member]
      rw [lookup_setEntry_ne _ _ (by decide), lookup_setEntry_ne _ _ (by decide), lookup_setEntry]
    have hsignature : (member (generateEs256Pair primitives row.kid seed).privateJwk "kid").map
        (fun kid => signature kid input) = .ok derSig := hsign
    rw [hprivate] at hsignature
    obtain rfl : signature row.kid input = derSig := Except.ok.inj hsignature
    -- both numbers are of full length, so the signature comes back as it was
    obtain ⟨m, hm, hder'⟩ := signature_eq row.kid input
    have hr : IsScalar (2 ^ 255 + m) := ⟨by positivity, by omega⟩
    have hs : IsScalar (2 ^ 255) := ⟨by positivity, by norm_num⟩
    rw [hder', derToJose_derSignature hr hs] at hjose
    obtain rfl := Except.ok.inj hjose
    rw [(joseToDer_eq_iff hr hs).mpr ⟨by omega, by norm_num⟩] at hder
    obtain rfl := Except.ok.inj hder
    refine ⟨row.kid, hmember, ?_⟩
    show Except.ok (decide (_ = signature row.kid input)) = _
    rw [hder', decide_eq_true rfl]

/-- What is drawn for a key. -/
def draw (b : Byte) : KeyDraw primitives := ⟨Vector.replicate 8 b, (), Vector.replicate 12 b⟩

/-- A day. -/
def day : Millis := 86400000

/-- A token for an hour, and two rotations before it expires. -/
def rotations : List (Operation primitives) :=
  [.sign "op" ⟨[("sub", .string "session")], by decide⟩ 3600 none (draw 1), .wait 60000,
    .rotate "op" .es256 (some 0) (draw 2), .wait 60000, .rotate "op" .es256 (some 1) (draw 3),
    .wait 3400000]

end Sample

end YantraRgs.SigningKeys
