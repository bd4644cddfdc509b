import YantraRgs.Db.Table
import YantraRgs.Services.Mfa

/-! # Recovery codes

An enrolment stores one digest, of all its recovery codes joined by spaces, and a code that comes in is
digested by itself. So none of the codes is ever accepted, and the joined text is.

* **`RecoveryWorks`** — what recovery codes are for.
* **`Enrolled`** — a user whose enrolment is in force, with what it handed out.
* **`recoveryCodes_never`** — they work for no such user. -/

namespace YantraRgs.Mfa

open Await

variable {env : Env} {w w' : World} {userId : Nat} {handed : MfaEnrollment} {now : Millis}

/-- A code is accepted at a time. -/
def Accepted (env : Env) (w : World) (userId : Nat) (code : Text) (now : Millis) : Prop :=
  ∃ via, verifyMfaCode env w userId code now = .ok ⟨true, via⟩

/-- A code of the authenticator at a time. -/
def IsTotp (env : Env) (secret code : Text) (now : Millis) : Prop :=
  ∃ offset, -TOTP_WINDOW ≤ offset ∧ offset ≤ TOTP_WINDOW ∧
    computeTotp env (base32Decode env.toUppercase secret) now offset = .ok code

/-- **Recovery codes work** for a user at a time: the codes that were handed out are accepted, and
beside them, up to case and dashes, only codes of the authenticator are. -/
structure RecoveryWorks (env : Env) (w : World) (userId : Nat) (handed : MfaEnrollment)
    (now : Millis) : Prop where
  accepted : ∀ code ∈ handed.recoveryCodes, Accepted env w userId code now
  only : ∀ code, Accepted env w userId code now →
    (∃ recovery ∈ handed.recoveryCodes, codeUpper env code = codeUpper env recovery) ∨
      IsTotp env handed.secret code now

/-- A user whose enrolment was confirmed and is neither disabled nor begun again, with what it handed
out. -/
structure Enrolled (w : World) (userId : Nat) (handed : MfaEnrollment) : Prop where
  issued : w.issued userId = some handed
  stored : ∃ user, w.users[userId]? = some user ∧ user.mfaEnrolledAt.isSome = true ∧
    user.mfaTotpSecretCipher.isSome = true

/-! ## What is stored -/

/-- A user that has a secret has the secret and the digest of the last enrolment. -/
def Stored (env : Env) (w : World) : Prop :=
  ∀ userId user, w.users[userId]? = some user → user.mfaTotpSecretCipher.isSome = true →
    ∃ slug email draw, w.issued userId = some (enrollment env slug email draw) ∧
      user.mfaTotpSecretCipher =
        some (encryptSecret env draw.iv (enrollment env slug email draw).secret) ∧
      user.mfaRecoveryCodesHash =
        some (hashRecoveryCodes env (enrollment env slug email draw).recoveryCodes)

theorem issued_cons (now : Millis) (users : List OperatorUser) (handed : List (Nat × MfaEnrollment))
    (u userId : Nat) (e : MfaEnrollment) :
    (World.mk now users ((u, e) :: handed)).issued userId =
      if u = userId then some e else (World.mk now users handed).issued userId := by
  unfold World.issued
  by_cases h : u = userId
  · rw [if_pos h, List.find?_cons_of_pos (by simpa using h)]
    rfl
  · rw [if_neg h, List.find?_cons_of_neg (by simpa using h)]

/-- A change of one user that leaves its secret and its digest alone, or takes the secret away. -/
theorem Stored.modify (h : Stored env w) {u : Nat} {f : OperatorUser → OperatorUser}
    (hf : ∀ user, (f user).mfaTotpSecretCipher.isSome = true →
      (f user).mfaTotpSecretCipher = user.mfaTotpSecretCipher ∧
        (f user).mfaRecoveryCodesHash = user.mfaRecoveryCodesHash) :
    Stored env { w with users := w.users.modify u f } := by
  intro userId user huser hsome
  rw [List.getElem?_modify] at huser
  obtain ⟨old, hold, rfl⟩ := Option.map_eq_some_iff.mp huser
  split at hsome
  · rename_i heq
    obtain ⟨hcipher, hhash⟩ := hf old hsome
    rw [if_pos heq, hcipher, hhash]
    exact h userId old hold (hcipher ▸ hsome)
  · rename_i hne
    rw [if_neg hne]
    exact h userId old hold hsome

theorem Stored.begin (h : Stored env w) (u : Nat) (slug email : Text) (draw : Draw) :
    Stored env { w with
      users := w.users.modify u fun user => { user with
        mfaTotpSecretCipher :=
          some (encryptSecret env draw.iv (enrollment env slug email draw).secret)
        mfaRecoveryCodesHash :=
          some (hashRecoveryCodes env (enrollment env slug email draw).recoveryCodes) }
      handed := (u, enrollment env slug email draw) :: w.handed } := by
  intro userId user huser hsome
  rw [issued_cons]
  rw [List.getElem?_modify] at huser
  obtain ⟨old, hold, rfl⟩ := Option.map_eq_some_iff.mp huser
  by_cases hu : u = userId
  · rw [if_pos hu, if_pos hu]
    exact ⟨slug, email, draw, rfl, rfl, rfl⟩
  · rw [if_neg hu] at hsome ⊢
    rw [if_neg hu]
    exact h userId old hold hsome

/-- Every call keeps what is stored in line with what was handed out. -/
theorem code_stored (env : Env) (k : Call) :
    (k.code env).Keeps fun w w' => Stored env w → Stored env w' := by
  cases k with
  | begin u slug email =>
      refine Prog.Keeps.bind ?_ fun _ => trivial
      refine Prog.Keeps.bind (Prog.Keeps.query (fun _ h => h) _) fun user => ?_
      cases user with
      | none => trivial
      | some user =>
          dsimp only
          split
          · trivial
          · refine Prog.Keeps.lift fun _ draw w _ w' hrun h => ?_
            have hw : _ = w' := congrArg Prod.snd (Option.some.inj hrun)
            exact hw ▸ h.begin u slug email draw
  | confirm u code =>
      refine Prog.Keeps.bind ?_ fun _ => trivial
      refine Prog.Keeps.bind (Prog.Keeps.query (fun _ h => h) _) fun read => ?_
      split
      · trivial
      · split
        · trivial
        · trivial
        · exact Prog.Keeps.request fun _ w h => h.modify fun user _ => ⟨rfl, rfl⟩
  | disable u =>
      refine Prog.Keeps.bind (Prog.Keeps.request fun _ w h => ?_) fun _ => trivial
      split
      · exact h
      · exact h.modify fun user hsome => by cases hsome

theorem outside_stored (x : Outside) (h : Stored env w) : Stored env (w.outside x) := by
  cases x with
  | elapse ms => exact h
  | createUser =>
      intro userId user huser hsome
      rcases Table.getElem?_concat_cases huser with hold | ⟨-, rfl⟩
      · exact h userId user hold hsome
      · cases hsome

/-- What is stored is in line with what was handed out, in every state that is reached. -/
theorem stored_of_run {q : State} (hrun : (mfaServer env).Run Anything (initial now) q) :
    Stored env q.world :=
  hrun.world_invariant (code_stored env) (fun x w w' hw h => Option.some.inj hw ▸ outside_stored x h)
    rfl fun userId user huser => by cases huser

/-! ## The texts of codes -/

/-- A recovery code is ten characters of the alphabet. -/
theorem mem_generateRecoveryCodes {raw : Vector (Vector Byte 6) RECOVERY_CODE_COUNT} {code : Text}
    (h : code ∈ generateRecoveryCodes raw) :
    code.length = 10 ∧ ∀ c ∈ code, c ∈ BASE32_ALPHABET := by
  obtain ⟨bytes, -, rfl⟩ := List.mem_map.mp h
  have hlen := length_base32Encode bytes.toList
  rw [Vector.length_toList] at hlen
  refine ⟨?_, fun c hc => encodeFrom_mem 0 0 _ c (List.mem_of_mem_take hc)⟩
  rw [List.length_take]
  omega

/-- Recovery codes and spaces between them are compared as they are. -/
theorem codeUpper_eq {s : Text} (hs : ∀ c ∈ s, c = ' ' ∨ c ∈ BASE32_ALPHABET) :
    codeUpper env s = s := by
  have hall : ∀ c ∈ BASE32_ALPHABET, c.toNat < 128 ∧ c.toUpper = c ∧ c ≠ '-' := by
    have hcheck := forall_mem_alphabet (p := fun c =>
      decide (c.toNat < 128 ∧ c.toUpper = c ∧ c ≠ '-')) (by decide +kernel)
    exact fun c hc => of_decide_eq_true (hcheck c hc)
  have hchar : ∀ c ∈ s, c.toNat < 128 ∧ c.toUpper = c ∧ c ≠ '-' := by
    intro c hc
    rcases hs c hc with rfl | hmem
    · decide
    · exact hall c hmem
  have hmap : s.map Char.toUpper = s := by
    conv_rhs => rw [← List.map_id s]
    exact List.map_congr_left fun c hc => (hchar c hc).2.1
  rw [codeUpper, env.ascii s fun c hc => (hchar c hc).1, hmap]
  exact List.filter_eq_self.mpr fun c hc => by simpa using (hchar c hc).2.2

theorem mem_intercalate {c : Char} {codes : List Text} (h : c ∈ [' '].intercalate codes) :
    c = ' ' ∨ ∃ code ∈ codes, c ∈ code := by
  obtain ⟨part, hpart, hc⟩ := List.mem_flatten.mp h
  induction codes with
  | nil => cases hpart
  | cons a codes ih =>
      cases codes with
      | nil =>
          rw [List.intersperse_singleton, List.mem_singleton] at hpart
          exact .inr ⟨a, List.mem_singleton_self a, hpart ▸ hc⟩
      | cons b codes =>
          rw [List.intersperse_cons_cons] at hpart
          rcases List.mem_cons.mp hpart with rfl | hpart
          · exact .inr ⟨part, List.mem_cons_self, hc⟩
          · rcases List.mem_cons.mp hpart with rfl | hpart
            · exact .inl (List.mem_singleton.mp hc)
            · rcases ih (List.mem_flatten.mpr ⟨part, hpart, hc⟩) hpart with hspace | ⟨code, hcode, hc⟩
              · exact .inl hspace
              · exact .inr ⟨code, List.mem_cons_of_mem a hcode, hc⟩

/-- The joined codes of a set have a space. -/
theorem space_mem_joined (raw : Vector (Vector Byte 6) RECOVERY_CODE_COUNT) :
    ' ' ∈ [' '].intercalate (generateRecoveryCodes raw) := by
  have hlen : (generateRecoveryCodes raw).length = 8 := by
    rw [generateRecoveryCodes, List.length_map, Vector.length_toList]
    rfl
  generalize generateRecoveryCodes raw = codes at hlen
  match codes, hlen with
  | a :: b :: rest, _ =>
      refine List.mem_flatten.mpr ⟨[' '], ?_, List.mem_singleton_self ' '⟩
      rw [List.intersperse_cons_cons]
      exact List.mem_cons_of_mem a List.mem_cons_self

/-! ## The check of a code -/

/-- **What a user's code is checked against**, when it is not six digits: its digest is that of all
recovery codes. -/
theorem accepted_iff {slug email : Text} {draw : Draw} {user : OperatorUser} {code : Text}
    (huser : w.users[userId]? = some user) (henrolled : user.mfaEnrolledAt.isSome = true)
    (hcipher : user.mfaTotpSecretCipher =
      some (encryptSecret env draw.iv (enrollment env slug email draw).secret))
    (hhash : user.mfaRecoveryCodesHash =
      some (hashRecoveryCodes env (enrollment env slug email draw).recoveryCodes))
    (hcode : isTotp code = false) :
    Accepted env w userId code now ↔
      hashRecoveryCodes env (enrollment env slug email draw).recoveryCodes =
        env.sha256 (codeUpper env code) := by
  obtain ⟨enrolledAt, hat⟩ := Option.isSome_iff_exists.mp henrolled
  have hverify : verifyMfaCode env w userId code now =
      if some (hashRecoveryCodes env (enrollment env slug email draw).recoveryCodes) =
          some (env.sha256 (codeUpper env code)) then .ok ⟨true, some .recovery⟩
      else .ok ⟨false, none⟩ := by
    rw [verifyMfaCode, huser]
    simp only [hat, hcipher, hhash, decryptSecret_encryptSecret, verifyTotp, hcode]
    rfl
  rw [Accepted, hverify]
  by_cases h : hashRecoveryCodes env (enrollment env slug email draw).recoveryCodes =
      env.sha256 (codeUpper env code)
  · rw [if_pos (congrArg some h)]
    exact ⟨fun _ => h, fun _ => ⟨some .recovery, rfl⟩⟩
  · rw [if_neg fun h' => h (Option.some.inj h')]
    refine ⟨?_, fun h' => absurd h' h⟩
    rintro ⟨_, hvia⟩
    cases hvia

theorem isTotp_of_digits {code : Text} (h : IsTotp env handed.secret code now) :
    ∀ c ∈ code, c.isDigit = true := by
  obtain ⟨offset, -, -, htotp⟩ := h
  intro c hc
  unfold computeTotp at htotp
  cases hmac : hmacCounter env (base32Decode env.toUppercase handed.secret)
      (totpCounter now + offset) with
  | error e =>
      rw [hmac] at htotp
      cases htotp
  | ok digest =>
      rw [hmac] at htotp
      have hpad : pad TOTP_DIGITS (truncate digest) = code := Except.ok.inj htotp
      exact isDigit_of_mem_pad (hpad ▸ hc)

/-! ## Recovery codes -/

/-- **Recovery codes work for no user**, at no time: each of them is refused. -/
theorem recoveryCodes_never (hsha : Function.Injective env.sha256) {q : State}
    (hrun : (mfaServer env).Run Anything (initial now) q) (h : Enrolled q.world userId handed)
    (later : Millis) :
    (∀ code ∈ handed.recoveryCodes, ¬ Accepted env q.world userId code later) ∧
      ¬ RecoveryWorks env q.world userId handed later := by
  obtain ⟨user, huser, henrolled, hsecret⟩ := h.stored
  obtain ⟨slug, email, draw, hissued, hcipher, hhash⟩ := stored_of_run hrun userId user huser hsecret
  obtain rfl : handed = enrollment env slug email draw := Option.some.inj (h.issued.symm.trans hissued)
  have hspace := space_mem_joined draw.raw
  have hcodes : ∀ code ∈ generateRecoveryCodes draw.raw, ' ' ∉ code := by
    intro code hcode hmem
    exact absurd ((mem_generateRecoveryCodes hcode).2 ' ' hmem) (by decide)
  refine ⟨fun code hcode hacc => ?_, fun hworks => ?_⟩
  · obtain ⟨hlen, hchars⟩ := mem_generateRecoveryCodes hcode
    have hnot : isTotp code = false := by
      rw [isTotp, decide_eq_false]
      rintro ⟨hsix, -⟩
      rw [hlen] at hsix
      cases hsix
    have hdigest := hsha ((accepted_iff huser henrolled hcipher hhash hnot).mp hacc)
    rw [codeUpper_eq fun c hc => .inr (hchars c hc)] at hdigest
    exact hcodes code hcode (hdigest ▸ hspace)
  · -- the joined codes are accepted
    have hjoined : codeUpper env ([' '].intercalate (generateRecoveryCodes draw.raw)) =
        [' '].intercalate (generateRecoveryCodes draw.raw) := codeUpper_eq fun c hc => by
      rcases mem_intercalate hc with hsp | ⟨code, hcode, hc⟩
      · exact .inl hsp
      · exact .inr ((mem_generateRecoveryCodes hcode).2 c hc)
    have hnot : isTotp ([' '].intercalate (generateRecoveryCodes draw.raw)) = false := by
      rw [isTotp, decide_eq_false]
      rintro ⟨-, hdigits⟩
      exact absurd (List.all_eq_true.mp hdigits ' ' hspace) (by decide)
    have hacc : Accepted env q.world userId ([' '].intercalate (generateRecoveryCodes draw.raw)) later :=
      (accepted_iff huser henrolled hcipher hhash hnot).mpr (congrArg env.sha256 hjoined.symm)
    rcases hworks.only _ hacc with ⟨recovery, hmem, heq⟩ | htotp
    · rw [hjoined, codeUpper_eq fun c hc => .inr ((mem_generateRecoveryCodes hmem).2 c hc)] at heq
      exact hcodes recovery hmem (heq ▸ hspace)
    · exact absurd (isTotp_of_digits htotp ' ' hspace) (by decide)

/-! ## One enrolment -/

namespace Sample

/-- What the digests of the authenticator are for the secret and the times below. -/
def hmacSha1 (_ message : List Byte) : Vector Byte 20 :=
  match message.getLast? with
  | some 0 => #v[204, 147, 207, 24, 80, 141, 148, 147, 76, 100, 182, 93, 139, 167, 102, 127, 183, 205,
      228, 176]
  | some 1 => #v[117, 164, 138, 25, 212, 203, 225, 0, 100, 78, 138, 193, 57, 126, 234, 116, 122, 45,
      51, 171]
  | _ => #v[11, 172, 183, 250, 8, 47, 239, 48, 120, 34, 17, 147, 139, 193, 197, 231, 4, 22, 255, 68]

/-- A text in three bytes for each character. -/
def textBytes (s : Text) : List Byte := s.flatMap fun c => bigEndian 3 c.toNat

/-- The text of such bytes. -/
def bytesText : List Byte → Text
  | a :: b :: c :: rest => Char.ofNat (a.val * 65536 + b.val * 256 + c.val) :: bytesText rest
  | _ => []

theorem bytesText_textBytes (s : Text) : bytesText (textBytes s) = s := by
  induction s with
  | nil => rfl
  | cons c s ih =>
      have hlt : c.toNat < 1114112 := by
        rcases c.valid with h | ⟨-, h⟩
        · exact Nat.lt_trans h (by decide)
        · exact h
      have hc : c.toNat / 256 ^ 2 % 256 * 65536 + c.toNat / 256 ^ 1 % 256 * 256 +
          c.toNat / 256 ^ 0 % 256 = c.toNat := by omega
      rw [textBytes, List.flatMap_cons]
      change Char.ofNat _ :: bytesText (textBytes s) = c :: s
      rw [ih]
      congr 1
      exact (congrArg Char.ofNat hc).trans (Char.ofNat_toNat c)

/-- The primitives. Digests of texts differ whenever the texts do, and the cipher hides nothing. -/
def primitives : Env where
  toUpperCase s := s.map Char.toUpper
  ascii _ _ := rfl
  encodeURIComponent s := s.flatMap fun c => if c = ':' then "%3A".toList else [c]
  hmacSha1 := hmacSha1
  sha256 text := '#' :: text
  aesGcm _ plain := (Vector.replicate 16 0, textBytes plain)
  aesGcmOpen _ _ ct := some (bytesText ct)
  aesGcmOpen_aesGcm _ plain := congrArg some (bytesText_textBytes plain)

theorem sha256_injective : Function.Injective primitives.sha256 := by
  intro a b h
  exact (List.cons.inj h).2

/-- What is drawn for an enrolment. -/
def draw : Draw where
  secretBytes := Vector.ofFn fun i => Fin.ofNat 256 (48 + (i.val + 1) % 10)
  raw := Vector.replicate 8 (Vector.replicate 6 0)
  iv := Vector.replicate 12 0

/-- What the enrolment hands out. -/
def handedOut : MfaEnrollment :=
  enrollment primitives "yantra".toList "admin@example.test".toList draw

/-- A user enrols, and confirms with the code of the time. -/
def enrolling : List Happening :=
  [.env .createUser, .call (.begin 0 "yantra".toList "admin@example.test".toList), .run 0 draw,
    .run 0 draw, .call (.confirm 0 "287082".toList), .run 1 draw, .run 1 draw]

/-- The user is then enrolled, and the check of its first recovery code fails. -/
theorem enrolled : ∃ q : State,
    (mfaServer primitives).Run Anything (initial 59000) q ∧ Enrolled q.world 0 handedOut ∧
      (verifyMfaCode primitives q.world 0 "AAAAAAAAAA".toList 60000).toOption =
        some ⟨false, none⟩ := by
  have hexec : ((mfaServer primitives).exec Anything (initial 59000) enrolling).map (fun q =>
      (q.world.issued 0, q.world.users[0]?.map fun user =>
        (user.mfaEnrolledAt.isSome, user.mfaTotpSecretCipher.isSome),
        (verifyMfaCode primitives q.world 0 "AAAAAAAAAA".toList 60000).toOption)) =
      some (some handedOut, some (true, true), some ⟨false, none⟩) := by
    decide +kernel
  obtain ⟨q, hrun, hq⟩ := System.Run.of_exec_map hexec
  simp only [Prod.mk.injEq] at hq
  obtain ⟨hissued, huser, hverify⟩ := hq
  obtain ⟨user, huser, hboth⟩ := Option.map_eq_some_iff.mp huser
  obtain ⟨henrolled, hcipher⟩ := Prod.mk.injEq .. ▸ hboth
  exact ⟨q, hrun, ⟨hissued, user, huser, henrolled, hcipher⟩, hverify⟩

end Sample

/-- The first code of one enrolment is refused. -/
theorem recoveryCodes_never_first : ∃ q : State,
    (mfaServer Sample.primitives).Run Anything (initial 59000) q ∧
      ¬ Accepted Sample.primitives q.world 0 "AAAAAAAAAA".toList 60000 ∧
      ¬ RecoveryWorks Sample.primitives q.world 0 Sample.handedOut 60000 := by
  obtain ⟨q, hrun, henrolled, -⟩ := Sample.enrolled
  have hnever := recoveryCodes_never Sample.sha256_injective hrun henrolled 60000
  exact ⟨q, hrun, hnever.1 _ (by decide +kernel), hnever.2⟩

/-- **A user whose recovery codes do not work.** -/
theorem recoveryCodes_broken : ¬ ∀ env : Env, Function.Injective env.sha256 →
    ∀ (now : Millis) (q : State), (mfaServer env).Run Anything (initial now) q →
      ∀ userId handed, Enrolled q.world userId handed → ∀ later,
        RecoveryWorks env q.world userId handed later := by
  intro h
  obtain ⟨q, hrun, henrolled, hverify⟩ := Sample.enrolled
  have hworks := h Sample.primitives Sample.sha256_injective 59000 q hrun 0 Sample.handedOut henrolled
    60000
  obtain ⟨via, hvia⟩ := hworks.accepted "AAAAAAAAAA".toList (by decide +kernel)
  rw [hvia] at hverify
  have hok := congrArg MfaVerification.ok (Option.some.inj hverify)
  exact Bool.noConfusion hok

end YantraRgs.Mfa
