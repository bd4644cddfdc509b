import YantraRgs.Await.Pool
import YantraRgs.Services.CanonicalJson
import YantraRgs.Text.Base32
import YantraRgs.Text.Iso
import YantraRgs.Wallet.Types

/-! # The second factor of operator users

An enrolment hands out a secret, from which an authenticator computes a code for every half minute, and
eight recovery codes. The secret is stored under a cipher, of the recovery codes only a digest is. It
takes effect with the first code of the authenticator.

* **`computeTotp`**, **`verifyTotp`** — the codes of the authenticator.
* **`beginMfaEnrollment`**, **`confirmMfaEnrollment`**, **`disableMfa`** — what changes a user.
* **`verifyMfaCode`** — what a code is checked against.
* **`mfaServer`** — all of it as a system. -/

namespace YantraRgs.Mfa

open Await

def TOTP_PERIOD_SECONDS : Nat := 30
def TOTP_DIGITS : Nat := 6
def TOTP_WINDOW : Int := 1
def RECOVERY_CODE_COUNT : Nat := 8

/-! ## What comes from elsewhere -/

/-- **The primitives**: texts outside ASCII, the escapes of addresses, the digests, and an
authenticated cipher under the key of the server. -/
structure Env extends Uppercase where
  encodeURIComponent : Text → Text
  hmacSha1 : List Byte → List Byte → Vector Byte 20
  /-- The digest of a text, in hexadecimal digits. -/
  sha256 : Text → Text
  /-- The tag and the bytes of a text under a nonce. -/
  aesGcm : Vector Byte 12 → Text → Vector Byte 16 × List Byte
  /-- The text under a nonce and a tag; none when they do not belong together. -/
  aesGcmOpen : List Byte → List Byte → List Byte → Option Text
  aesGcmOpen_aesGcm : ∀ iv plain,
    aesGcmOpen iv.toList (aesGcm iv plain).1.toList (aesGcm iv plain).2 = some plain

/-- Why a request fails. -/
inductive MfaError
  | userNotFound
  | mfaAlreadyEnrolled
  | mfaNotBegun
  /-- The stored secret has no room for a nonce and a tag. -/
  | cipherBlobTooShort
  /-- The stored secret does not fit its tag. -/
  | unableToAuthenticate
  /-- The number of a half minute does not fit in eight bytes. -/
  | outOfRange
  deriving DecidableEq

/-- A secret under the cipher: the nonce, the tag, and the bytes. -/
def encryptSecret (env : Env) (iv : Vector Byte 12) (plain : Text) : List Byte :=
  iv.toList ++ (env.aesGcm iv plain).1.toList ++ (env.aesGcm iv plain).2

/-- The secret of a stored one. -/
def decryptSecret (env : Env) (blob : List Byte) : Except MfaError Text :=
  if blob.length < 12 + 16 then .error .cipherBlobTooShort
  else
    match env.aesGcmOpen (blob.take 12) ((blob.drop 12).take 16) (blob.drop 28) with
    | some plain => .ok plain
    | none => .error .unableToAuthenticate

/-- **A stored secret is read back.** -/
theorem decryptSecret_encryptSecret (env : Env) (iv : Vector Byte 12) (plain : Text) :
    decryptSecret env (encryptSecret env iv plain) = .ok plain := by
  have hiv : iv.toList.length = 12 := Vector.length_toList
  have htag : (env.aesGcm iv plain).1.toList.length = 16 := Vector.length_toList
  have hlong : ¬ (encryptSecret env iv plain).length < 12 + 16 := by
    rw [encryptSecret, List.length_append, List.length_append, hiv, htag]
    omega
  have htake : (encryptSecret env iv plain).take 12 = iv.toList := by
    rw [encryptSecret, List.append_assoc, List.take_left' hiv]
  have hdrop : (encryptSecret env iv plain).drop 12 =
      (env.aesGcm iv plain).1.toList ++ (env.aesGcm iv plain).2 := by
    rw [encryptSecret, List.append_assoc, List.drop_left' hiv]
  have hrest : (encryptSecret env iv plain).drop 28 = (env.aesGcm iv plain).2 := by
    rw [show 28 = 12 + 16 by rfl, ← List.drop_drop, hdrop, List.drop_left' htag]
  rw [decryptSecret, if_neg hlong, htake, hdrop, hrest, List.take_left' htag,
    env.aesGcmOpen_aesGcm]

/-! ## The codes of the authenticator -/

/-- The number of the half minute of a time. -/
def totpCounter (timestampMs : Millis) : Int := timestampMs / 1000 / TOTP_PERIOD_SECONDS

/-- The digest of a half minute; its number is written in eight bytes. -/
def hmacCounter (env : Env) (secret : List Byte) (counter : Int) :
    Except MfaError (Vector Byte 20) :=
  if counter < 0 ∨ 2 ^ 64 ≤ counter then .error .outOfRange
  else .ok (env.hmacSha1 secret (bigEndian 8 counter.toNat))

/-- The number of a digest: four bytes, from a place that the last one names, without the sign. -/
def truncate (hmac : Vector Byte 20) : Nat :=
  let offset := hmac[19].val % 16
  let byte (i : Nat) : Nat := (hmac[offset + i]?.map Fin.val).getD 0
  (byte 0 % 128 * 2 ^ 24 + byte 1 * 2 ^ 16 + byte 2 * 2 ^ 8 + byte 3) % 10 ^ TOTP_DIGITS

/-- **The code of a half minute**, counted from the one of a time. -/
def computeTotp (env : Env) (secret : List Byte) (timestampMs : Millis) (offset : Int) :
    Except MfaError Text := do
  let hmac ← hmacCounter env secret (totpCounter timestampMs + offset)
  pure (pad TOTP_DIGITS (truncate hmac))

/-- Whether a text is six digits. -/
def isTotp (code : Text) : Bool := code.length = TOTP_DIGITS ∧ code.all Char.isDigit

/-- **Whether a code is that of a time**, give or take a half minute. -/
def verifyTotp (env : Env) (secret : List Byte) (code : Text) (timestampMs : Millis) :
    Except MfaError Bool :=
  if isTotp code then do
    let before ← computeTotp env secret timestampMs (-TOTP_WINDOW)
    let current ← computeTotp env secret timestampMs 0
    let after ← computeTotp env secret timestampMs TOTP_WINDOW
    pure (before = code ∨ current = code ∨ after = code)
  else .ok false

/-! ## Recovery codes -/

/-- The recovery codes of what was drawn. -/
def generateRecoveryCodes (raw : Vector (Vector Byte 6) RECOVERY_CODE_COUNT) : List Text :=
  raw.toList.map fun raw => (base32Encode raw.toList).take 10

/-- The digest of a set of recovery codes. -/
def hashRecoveryCodes (env : Env) (codes : List Text) : Text := env.sha256 ([' '].intercalate codes)

/-- A code as it is compared: in upper case, without dashes. -/
def codeUpper (env : Env) (code : Text) : Text := (env.toUpperCase code).filter (· ≠ '-')

/-! ## Users -/

/-- What a user has of the second factor. -/
structure OperatorUser where
  mfaTotpSecretCipher : Option (List Byte)
  mfaEnrolledAt : Option Millis
  mfaRecoveryCodesHash : Option Text
  deriving DecidableEq

/-- What an enrolment hands out. -/
structure MfaEnrollment where
  secret : Text
  otpauthUrl : Text
  recoveryCodes : List Text
  deriving DecidableEq

/-- What is drawn for an enrolment. -/
structure Draw where
  secretBytes : Vector Byte 20
  raw : Vector (Vector Byte 6) RECOVERY_CODE_COUNT
  iv : Vector Byte 12
  deriving DecidableEq

/-- The users, and what enrolments handed out, the newest first. -/
structure World where
  now : Millis
  users : List OperatorUser
  handed : List (Nat × MfaEnrollment)

/-- What the last enrolment of a user handed out. -/
def World.issued (w : World) (userId : Nat) : Option MfaEnrollment :=
  (w.handed.find? fun x => x.1 = userId).map Prod.snd

/-- A piece of a call. -/
abbrev Action := Prog World Draw

/-- The address under which an authenticator takes a secret in. -/
def otpauthUrl (env : Env) (operatorSlug userEmail secret : Text) : Text :=
  let issuer := "Yantra:".toList ++ operatorSlug
  let label := env.encodeURIComponent (issuer ++ ':' :: userEmail)
  "otpauth://totp/".toList ++ label ++ "?secret=".toList ++ secret ++ "&issuer=".toList ++
    env.encodeURIComponent issuer ++ "&algorithm=SHA1&digits=6&period=30".toList

/-- What is handed out for what was drawn. -/
def enrollment (env : Env) (operatorSlug userEmail : Text) (draw : Draw) : MfaEnrollment :=
  let secret := base32Encode draw.secretBytes.toList
  { secret
    otpauthUrl := otpauthUrl env operatorSlug userEmail secret
    recoveryCodes := generateRecoveryCodes draw.raw }

/-- **An enrolment begins**: nothing takes effect yet. -/
def beginMfaEnrollment (env : Env) (userId : Nat) (operatorSlug userEmail : Text) :
    Action (Except MfaError MfaEnrollment) := do
  let user ← Prog.query fun w => w.users[userId]?
  match user with
  | none => pure (.error .userNotFound)
  | some user =>
      if user.mfaEnrolledAt.isSome then pure (.error .mfaAlreadyEnrolled)
      else
        Prog.lift fun _ draw w =>
          let handed := enrollment env operatorSlug userEmail draw
          some (.ok handed, { w with
            users := w.users.modify userId fun user => { user with
              mfaTotpSecretCipher := some (encryptSecret env draw.iv handed.secret)
              mfaRecoveryCodesHash := some (hashRecoveryCodes env handed.recoveryCodes) }
            handed := (userId, handed) :: w.handed })

/-- **An enrolment is confirmed** with a code of the authenticator. -/
def confirmMfaEnrollment (env : Env) (userId : Nat) (code : Text) :
    Action (Except MfaError Bool) := do
  let read ← Prog.query fun w => (w.users[userId]?.bind OperatorUser.mfaTotpSecretCipher, w.now)
  match read.1 with
  | none => pure (.error .mfaNotBegun)
  | some cipher =>
      match (decryptSecret env cipher).bind fun secret =>
          verifyTotp env (base32Decode env.toUppercase secret) code read.2 with
      | .error e => pure (.error e)
      | .ok false => pure (.ok false)
      | .ok true =>
          Prog.request fun _ w => (.ok true, { w with
            users := w.users.modify userId fun user => { user with mfaEnrolledAt := some w.now } })

/-- How a code was accepted. -/
inductive Via
  | totp
  | recovery
  deriving DecidableEq

/-- What the check of a code comes to. -/
structure MfaVerification where
  ok : Bool
  via : Option Via
  deriving DecidableEq

/-- **The check of a code** at a time; it changes nothing. -/
def verifyMfaCode (env : Env) (w : World) (userId : Nat) (code : Text) (now : Millis) :
    Except MfaError MfaVerification :=
  match w.users[userId]? with
  | none => .ok ⟨false, none⟩
  | some user =>
      match user.mfaEnrolledAt, user.mfaTotpSecretCipher with
      | some _, some cipher => do
          let secret ← decryptSecret env cipher
          let totp ← verifyTotp env (base32Decode env.toUppercase secret) code now
          if totp then pure ⟨true, some .totp⟩
          else if user.mfaRecoveryCodesHash = some (env.sha256 (codeUpper env code)) then
            pure ⟨true, some .recovery⟩
          else pure ⟨false, none⟩
      | _, _ => .ok ⟨false, none⟩

/-- **The second factor is switched off.** -/
def disableMfa (userId : Nat) : Action (Except MfaError Unit) :=
  Prog.request fun _ w =>
    match w.users[userId]? with
    | none => (.error .userNotFound, w)
    | some _ => (.ok (), { w with
        users := w.users.modify userId fun user => { user with
          mfaTotpSecretCipher := none
          mfaEnrolledAt := none
          mfaRecoveryCodesHash := none } })

/-! ## The system -/

/-- What can be called. -/
inductive Call
  | begin (userId : Nat) (operatorSlug userEmail : Text)
  | confirm (userId : Nat) (code : Text)
  | disable (userId : Nat)

/-- The program of a call. -/
def Call.code (env : Env) : Call → Action Unit
  | .begin userId operatorSlug userEmail => do
      let _ ← beginMfaEnrollment env userId operatorSlug userEmail
      pure ()
  | .confirm userId code => do
      let _ ← confirmMfaEnrollment env userId code
      pure ()
  | .disable userId => do
      let _ ← disableMfa userId
      pure ()

/-- What happens outside. -/
inductive Outside
  /-- Time passes. -/
  | elapse (ms : Millis)
  /-- A user is added. -/
  | createUser

/-- What happens to the world from outside. -/
def World.outside (w : World) : Outside → World
  | .elapse ms => { w with now := w.now + ms }
  | .createUser => { w with users := w.users ++ [⟨none, none, none⟩] }

/-- **The server, as far as the second factor goes.** -/
def mfaServer (env : Env) : System World Draw Call Outside where
  code := Call.code env
  admits _ _ := true
  env x w := some (w.outside x)
  dies _ _ := false

/-- A state of the server. -/
abbrev State := Pool World Draw Call

/-- An event of the server. -/
abbrev Happening := Event Draw Call Outside

/-- A server without users. -/
def initial (now : Millis) : State := ⟨⟨now, [], []⟩, []⟩

end YantraRgs.Mfa
