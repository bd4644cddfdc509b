import YantraRgs.Middleware.AddressReading
import YantraRgs.Services.CanonicalJson
import YantraRgs.Text.Bytes

/-! # Signed requests

Requests between the server and its operators carry a signature over their method, path, timestamp and
body. Four parts of the program check one, each with code of its own.

* **`Crypto`** — the digests of the platform.
* **`canonicalString`**, **`signPayload`** — what is signed, and how.
* **`check`** — what all of them check; **`verifySignature`** of the server, **`verifyInboundSignature`** of
  the mock operator, **`verifyPayload`** of the contract and **`verifyWebhookSignature`** of the kit for
  operators are it with what each one adds.
* **`check_eq_ok`** — what passes. -/

namespace YantraRgs.Signing

/-- **The digests of the platform**: the hexadecimal digest of a text, and the digest of a text under a
secret. -/
structure Crypto where
  sha256Hex : Text → Text
  hmacSha256 : Text → Text → List Byte
  length_sha256Hex : ∀ body, (sha256Hex body).length = 64
  isHex : ∀ body, ∀ c ∈ sha256Hex body, c.isDigit = true ∨ c ∈ ['a', 'b', 'c', 'd', 'e', 'f']
  length_hmacSha256 : ∀ secret text, (hmacSha256 secret text).length = 32

/-- A timestamp in seconds: a number, or the text of a header. -/
inductive Timestamp
  | number (n : Int)
  | text (s : Text)
  deriving DecidableEq

/-- The text of a timestamp. -/
def Timestamp.toText : Timestamp → Text
  | .number n => (toString n).toList
  | .text s => s

/-- **The seconds of a timestamp**: a text is read up to the first sign that is no digit. -/
def Timestamp.seconds : Timestamp → Option Int
  | .number n => some n
  | .text s => IpAllowList.parseInt s 10

/-- Whether a timestamp counts as given. -/
def Timestamp.given : Timestamp → Bool
  | .number n => n ≠ 0
  | .text s => s ≠ []

/-- What a signature is about. -/
structure Message where
  method : Text
  path : Text
  timestamp : Timestamp
  body : Text
  deriving DecidableEq

/-- A method in capital letters. -/
def toUpperCase (method : Text) : Text := method.map Char.toUpper

/-- Why a signature is refused. -/
inductive Refusal
  | missingHeaders
  | badTimestamp
  | staleTimestamp
  | badSignature
  deriving DecidableEq

/-- The reason as it is sent. -/
def Refusal.text : Refusal → String
  | .missingHeaders => "missing_headers"
  | .badTimestamp => "bad_timestamp"
  | .staleTimestamp => "stale_timestamp"
  | .badSignature => "bad_signature"

/-- The window of the contract, in seconds. -/
def DEFAULT_CLOCK_TOLERANCE_SECONDS : Int := 30

section Verifying

variable (crypto : Crypto) (secret : Text) (m : Message)

/-- **What is signed.** -/
def canonicalString : Text :=
  Split.join '\n' [toUpperCase m.method, m.path, m.timestamp.toText, crypto.sha256Hex m.body]

/-- **The signature of a message.** -/
def signPayload : Text := Base64.encode (crypto.hmacSha256 secret (canonicalString crypto m))

variable (signature : Text) (windowSeconds nowSec : Int)

/-- **The check**: the timestamp is near enough, and the signature has the bytes of the expected one. -/
def check : Except Refusal Unit :=
  match m.timestamp.seconds with
  | none => .error .badTimestamp
  | some tsNum =>
      if windowSeconds < |nowSec - tsNum| then .error .staleTimestamp
      else if Base64.decode (signPayload crypto secret m) = Base64.decode signature then .ok ()
      else .error .badSignature

/-- The check of the server. -/
def verifySignature : Bool := (check crypto secret m signature windowSeconds nowSec).isOk

/-- **The check of the mock operator**, of the headers that a request has. -/
def verifyInboundSignature (method path : Text) (timestamp signature : Option Text) (body : Text) :
    Except Refusal Unit :=
  match timestamp.filter (· ≠ []), signature.filter (· ≠ []) with
  | some timestamp, some signature =>
      check crypto secret ⟨method, path, .text timestamp, body⟩ signature windowSeconds nowSec
  | _, _ => .error .missingHeaders

/-- **The check of the contract**, which refuses an empty signature first. -/
def verifyPayload (toleranceSeconds : Option Int) : Bool :=
  (check crypto secret m signature (toleranceSeconds.getD DEFAULT_CLOCK_TOLERANCE_SECONDS) nowSec).isOk &&
    Base64.decode (signPayload crypto secret m) ≠ []

/-- **The check of the kit for operators**: it throws where a header is missing. -/
def verifyWebhookSignature (method path body : Text) (timestamp : Option Timestamp)
    (signature : Option Text) (toleranceSeconds : Option Int) : Except Refusal Bool :=
  match timestamp.filter (·.given), signature.filter (· ≠ []) with
  | some timestamp, some signature =>
      .ok (verifyPayload crypto secret ⟨method, path, timestamp, body⟩ signature nowSec
        (some (toleranceSeconds.getD DEFAULT_CLOCK_TOLERANCE_SECONDS)))
  | _, _ => .error .missingHeaders

end Verifying

/-! ## What passes -/

section Passing

variable {crypto : Crypto} {secret : Text} {m m' : Message} {signature : Text}
  {windowSeconds nowSec : Int}

/-- A signature has the bytes of its digest. -/
@[simp] theorem decode_signPayload (crypto : Crypto) (secret : Text) (m : Message) :
    Base64.decode (signPayload crypto secret m) = crypto.hmacSha256 secret (canonicalString crypto m) :=
  Base64.decode_encode _

/-- A digest is not empty. -/
theorem hmacSha256_ne_nil (crypto : Crypto) (secret text : Text) : crypto.hmacSha256 secret text ≠ [] :=
  List.ne_nil_of_length_pos (by rw [crypto.length_hmacSha256]; decide)

/-- **What passes the check**: a timestamp inside the window, and a signature with the bytes of the
digest. -/
theorem check_eq_ok : check crypto secret m signature windowSeconds nowSec = .ok () ↔
    (∃ t, m.timestamp.seconds = some t ∧ |nowSec - t| ≤ windowSeconds) ∧
      Base64.decode signature = crypto.hmacSha256 secret (canonicalString crypto m) := by
  unfold check
  rw [decode_signPayload]
  cases m.timestamp.seconds with
  | none => simp
  | some t =>
      dsimp only
      split
      · rename_i hfar
        constructor
        · exact fun h => nomatch h
        · rintro ⟨⟨u, hu, hnear⟩, -⟩
          obtain rfl := Option.some.inj hu
          exact absurd hnear (not_le.mpr hfar)
      · rename_i hnear
        split
        · rename_i hsame
          exact ⟨fun _ => ⟨⟨t, rfl, not_lt.mp hnear⟩, hsame.symm⟩, fun _ => rfl⟩
        · rename_i hother
          exact ⟨fun h => (nomatch h), fun h => absurd h.2.symm hother⟩

theorem verifySignature_iff : verifySignature crypto secret m signature windowSeconds nowSec = true ↔
    check crypto secret m signature windowSeconds nowSec = .ok () := by
  rw [verifySignature]
  cases check crypto secret m signature windowSeconds nowSec with
  | error e => exact ⟨fun h => (nomatch h), fun h => (nomatch h)⟩
  | ok u => exact ⟨fun _ => rfl, fun _ => rfl⟩

/-- A header that is given. -/
theorem filter_given {s : Text} (h : s ≠ []) : (some s).filter (· ≠ []) = some s :=
  Option.filter_some_pos (decide_eq_true h)

/-- What passes the check of the mock operator has its headers. -/
theorem verifyInboundSignature_eq_ok {method path body : Text} {timestamp signature : Option Text}
    (h : verifyInboundSignature crypto secret windowSeconds nowSec method path timestamp signature body =
      .ok ()) : ∃ t s, timestamp = some t ∧ signature = some s ∧
        check crypto secret ⟨method, path, .text t, body⟩ s windowSeconds nowSec = .ok () := by
  unfold verifyInboundSignature at h
  split at h
  · rename_i t s ht hs
    exact ⟨t, s, (Option.filter_eq_some_iff.mp ht).1, (Option.filter_eq_some_iff.mp hs).1, h⟩
  · cases h

/-- The seconds of a text that a clock wrote. -/
theorem seconds_toDigits (t : Nat) : (Timestamp.text (Nat.toDigits 10 t)).seconds = some (t : Int) := by
  have hdigits : BigInt.digits 10 (Nat.toDigits 10 t) = _ :=
    BigInt.digits_of_isDigit Nat.toDigits_ne_nil fun c hc => isDigit_of_mem_toDigits hc
  rw [Nat.ofDigitChars_ten_toDigits] at hdigits
  exact IpAllowList.parseInt_digits hdigits

end Passing

/-! ## What a signature stands for -/

/-- The parts of a message stand on one line each, and none is empty. -/
structure Message.OnLines (m : Message) : Prop where
  method : m.method ≠ [] ∧ '\n' ∉ m.method
  path : m.path ≠ [] ∧ '\n' ∉ m.path
  timestamp : m.timestamp.toText ≠ [] ∧ '\n' ∉ m.timestamp.toText

/-- A capital letter is no line break. -/
theorem toUpper_ne_newline {c : Char} (h : c ≠ '\n') : c.toUpper ≠ '\n' := by
  intro heq
  unfold Char.toUpper at heq
  split at heq
  · rename_i hlower
    have hlow : 97 ≤ c.toNat := hlower.1
    have hhigh : c.toNat ≤ 122 := hlower.2
    have hval := congrArg Char.toNat heq
    simp at hval
    omega
  · exact h heq

/-- **What is signed determines the message**, but for the body, of which it has the digest. -/
theorem canonicalString_inj {crypto : Crypto} {m m' : Message} (hm : m.OnLines) (hm' : m'.OnLines)
    (h : canonicalString crypto m = canonicalString crypto m') :
    toUpperCase m.method = toUpperCase m'.method ∧ m.path = m'.path ∧
      m.timestamp.toText = m'.timestamp.toText ∧ crypto.sha256Hex m.body = crypto.sha256Hex m'.body := by
  have hupper : ∀ {method : Text}, method ≠ [] ∧ '\n' ∉ method →
      toUpperCase method ≠ [] ∧ '\n' ∉ toUpperCase method := by
    rintro method ⟨hne, hline⟩
    refine ⟨fun hnil => hne (List.map_eq_nil_iff.mp hnil), fun hmem => ?_⟩
    obtain ⟨c, hc, heq⟩ := List.mem_map.mp hmem
    exact toUpper_ne_newline (fun hcn => hline (hcn ▸ hc)) heq
  have hdigest : ∀ body, crypto.sha256Hex body ≠ [] ∧ '\n' ∉ crypto.sha256Hex body := by
    intro body
    refine ⟨List.ne_nil_of_length_pos (by rw [crypto.length_sha256Hex]; decide), fun hmem => ?_⟩
    exact absurd (crypto.isHex body _ hmem) (by decide)
  have hparts : ∀ {m : Message}, m.OnLines → ∀ p ∈ [toUpperCase m.method, m.path, m.timestamp.toText,
      crypto.sha256Hex m.body], p ≠ [] ∧ '\n' ∉ p := by
    intro m hm p hp
    simp only [List.mem_cons, List.not_mem_nil, or_false] at hp
    rcases hp with rfl | rfl | rfl | rfl
    · exact hupper hm.method
    · exact hm.path
    · exact hm.timestamp
    · exact hdigest m.body
  have hlist := Split.join_injective (hparts hm) (hparts hm') h
  simp only [List.cons.injEq, and_true] at hlist
  exact hlist

end YantraRgs.Signing
