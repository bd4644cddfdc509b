import Mathlib.Data.List.TakeWhile
import YantraRgs.MockOperator.Http

/-! # Signed calls

The four parts of the program that check signatures agree, so what one signs any other accepts; and a call
of the adapter comes through to the operator's wallet, and its answer back.

* **`Party`** — who checks a signature; **`Party.accepts`** — with which outcome.
* **`signatures_interoperate`** — they accept the same signatures, each for one message and one time.
* **`exchange`** — a call and its answer over HTTP; **`call_answered`** — what comes of it. -/

namespace YantraRgs

open HttpWallet JsonFields Signing

/-! ## Checks -/

namespace Signing

/-- A request as it is presented, with its headers. -/
structure Presented where
  method : Text
  path : Text
  timestamp : Text
  body : Text
  signature : Text
  deriving DecidableEq

/-- What the signature of a request has to be about. -/
def Presented.message (r : Presented) : Message := ⟨r.method, r.path, .text r.timestamp, r.body⟩

/-- **The parties that check signatures.** -/
inductive Party
  | server
  | mockOperator
  | contract
  | operatorKit
  deriving DecidableEq

/-- Whether a party accepts a request. -/
def Party.accepts (party : Party) (crypto : Crypto) (secret : Text) (windowSeconds nowSec : Int)
    (r : Presented) : Bool :=
  match party with
  | .server => verifySignature crypto secret r.message r.signature windowSeconds nowSec
  | .mockOperator =>
      (verifyInboundSignature crypto secret windowSeconds nowSec r.method r.path (some r.timestamp)
        (some r.signature) r.body).isOk
  | .contract => verifyPayload crypto secret r.message r.signature nowSec (some windowSeconds)
  | .operatorKit =>
      (verifyWebhookSignature crypto secret nowSec r.method r.path r.body (some (.text r.timestamp))
        (some r.signature) (some windowSeconds)).toOption.getD false

variable {crypto : Crypto} {secret : Text} {windowSeconds nowSec nowSec' : Int} {r r' : Presented}

/-- A check as a truth value. -/
theorem isOk_iff {e : Except Refusal Unit} : e.isOk = true ↔ e = .ok () := by
  cases e with
  | error reason => exact ⟨fun h => (nomatch h), fun h => (nomatch h)⟩
  | ok u => exact ⟨fun _ => rfl, fun _ => rfl⟩

/-- What passes the check has headers that are not empty. -/
theorem given_of_check (h : check crypto secret r.message r.signature windowSeconds nowSec = .ok ()) :
    r.timestamp ≠ [] ∧ r.signature ≠ [] := by
  obtain ⟨⟨t, ht, -⟩, hsignature⟩ := check_eq_ok.mp h
  constructor
  · intro hempty
    rw [Presented.message, hempty] at ht
    cases ht
  · intro hempty
    rw [hempty] at hsignature
    exact hmacSha256_ne_nil crypto secret _ hsignature.symm

/-- **Every party accepts what passes the check**, and nothing else. -/
theorem accepts_iff (party : Party) :
    party.accepts crypto secret windowSeconds nowSec r = true ↔
      check crypto secret r.message r.signature windowSeconds nowSec = .ok () := by
  have hpayload : verifyPayload crypto secret r.message r.signature nowSec (some windowSeconds) = true ↔
      check crypto secret r.message r.signature windowSeconds nowSec = .ok () := by
    rw [verifyPayload, decode_signPayload, Bool.and_eq_true, Option.getD_some, isOk_iff]
    simp [hmacSha256_ne_nil]
  cases party with
  | server => exact isOk_iff
  | contract => exact hpayload
  | mockOperator =>
      refine isOk_iff.trans ⟨fun h => ?_, fun h => ?_⟩
      · obtain ⟨t, s, ht, hs, hcheck⟩ := verifyInboundSignature_eq_ok h
        obtain rfl := Option.some.inj ht
        obtain rfl := Option.some.inj hs
        exact hcheck
      · obtain ⟨htimestamp, hsignature⟩ := given_of_check h
        rw [verifyInboundSignature, filter_given htimestamp, filter_given hsignature]
        exact h
  | operatorKit =>
      rw [← hpayload, Party.accepts, verifyWebhookSignature]
      by_cases hgiven : r.timestamp ≠ [] ∧ r.signature ≠ []
      · rw [Option.filter_some_pos (by simpa [Timestamp.given] using hgiven.1),
          filter_given hgiven.2]
        exact Iff.rfl
      · refine ⟨fun h => ?_, fun h => absurd (given_of_check (hpayload.mp h)) hgiven⟩
        split at h
        · rename_i t s ht hs
          obtain ⟨htimestamp, hne⟩ := Option.filter_eq_some_iff.mp ht
          obtain ⟨hsignature, hne'⟩ := Option.filter_eq_some_iff.mp hs
          obtain rfl := Option.some.inj htimestamp
          obtain rfl := Option.some.inj hsignature
          exact absurd ⟨by simpa [Timestamp.given] using hne, by simpa using hne'⟩ hgiven
        · cases h

/-- **The parties agree**: they accept the same requests, and what any of them signs with the time of its
clock they accept exactly while their own clocks are inside the window around it. -/
theorem parties_agree (crypto : Crypto) (secret : Text) (windowSeconds nowSec : Int) (party party' : Party) :
    (∀ r, party.accepts crypto secret windowSeconds nowSec r =
      party'.accepts crypto secret windowSeconds nowSec r) ∧
    ∀ (sentAt : Nat) (method path body : Text),
      party.accepts crypto secret windowSeconds nowSec ⟨method, path, Nat.toDigits 10 sentAt, body,
        signPayload crypto secret ⟨method, path, .text (Nat.toDigits 10 sentAt), body⟩⟩ = true ↔
          |nowSec - sentAt| ≤ windowSeconds := by
  refine ⟨fun r => ?_, fun sentAt method path body => ?_⟩
  · rw [Bool.eq_iff_iff, accepts_iff, accepts_iff]
  · rw [accepts_iff, check_eq_ok, Presented.message, seconds_toDigits, decode_signPayload]
    simp

/-- The digests of two messages do not collide. -/
structure Apart (crypto : Crypto) (secret : Text) (m m' : Message) : Prop where
  hmac : crypto.hmacSha256 secret (canonicalString crypto m) =
    crypto.hmacSha256 secret (canonicalString crypto m') → canonicalString crypto m = canonicalString crypto m'
  sha : crypto.sha256Hex m.body = crypto.sha256Hex m'.body → m.body = m'.body

/-- **A signature is good for one message and one time.** Whichever parties accept two requests with the
same signature, the requests have the same method, path, timestamp and body, and the clocks are at most
twice the window apart. -/
theorem signature_binds (party party' : Party) (hlines : r.message.OnLines) (hlines' : r'.message.OnLines)
    (hapart : Apart crypto secret r.message r'.message) (hsame : r.signature = r'.signature)
    (haccepts : party.accepts crypto secret windowSeconds nowSec r = true)
    (haccepts' : party'.accepts crypto secret windowSeconds nowSec' r' = true) :
    toUpperCase r.method = toUpperCase r'.method ∧ r.path = r'.path ∧ r.timestamp = r'.timestamp ∧
      r.body = r'.body ∧ |nowSec - nowSec'| ≤ 2 * windowSeconds := by
  obtain ⟨⟨t, ht, hnear⟩, hbytes⟩ := check_eq_ok.mp ((accepts_iff party).mp haccepts)
  obtain ⟨⟨t', ht', hnear'⟩, hbytes'⟩ := check_eq_ok.mp ((accepts_iff party').mp haccepts')
  have hcanonical := hapart.hmac (hbytes.symm.trans ((congrArg _ hsame).trans hbytes'))
  obtain ⟨hmethod, hpath, htimestamp, hdigest⟩ := canonicalString_inj hlines hlines' hcanonical
  have hread : r.message.timestamp.seconds = r'.message.timestamp.seconds :=
    congrArg (fun s => (Timestamp.text s).seconds) htimestamp
  obtain rfl := Option.some.inj (ht.symm.trans (hread.trans ht'))
  refine ⟨hmethod, hpath, htimestamp, hapart.sha hdigest, ?_⟩
  rw [abs_le] at hnear hnear' ⊢
  omega

/-! ## A pair of requests -/

namespace Sample

/-- A number for a text. -/
def checksum (text : Text) : Nat := text.foldl (fun n c => (n * 31 + c.toNat) % 2 ^ 32) 7

theorem isHex_digitChar : ∀ d < 16,
    (Nat.digitChar d).isDigit = true ∨ Nat.digitChar d ∈ ['a', 'b', 'c', 'd', 'e', 'f'] := by
  decide

/-- Digests of numbers for texts. -/
def digests : Crypto where
  sha256Hex body := (List.range 64).map fun k => Nat.digitChar (checksum body / 16 ^ k % 16)
  hmacSha256 secret text :=
    (List.range 32).map fun k => Fin.ofNat 256 (checksum (secret ++ text) / 256 ^ k)
  length_sha256Hex _ := by rw [List.length_map, List.length_range]
  isHex _ c hc := by
    obtain ⟨k, -, rfl⟩ := List.mem_map.mp hc
    exact isHex_digitChar _ (Nat.mod_lt _ (by decide))
  length_hmacSha256 _ _ := by rw [List.length_map, List.length_range]

/-- A request that was signed at the time 100. -/
def presented : Presented :=
  ⟨"POST".toList, "/wallet/bet".toList, "100".toList, "\x7b\x7d".toList,
    signPayload digests "s".toList ⟨"POST".toList, "/wallet/bet".toList, .text "100".toList,
      "\x7b\x7d".toList⟩⟩

/-- The same request, with its method in small letters. -/
def replayed : Presented := { presented with method := "post".toList }

end Sample

/-- A request is accepted by the operator, and later by the server. -/
theorem signature_binds_replayed : Sample.presented.message.OnLines ∧ Sample.replayed.message.OnLines ∧
    Party.mockOperator.accepts Sample.digests "s".toList 30 90 Sample.presented = true ∧
      Party.server.accepts Sample.digests "s".toList 30 125 Sample.replayed = true ∧
        toUpperCase Sample.presented.method = toUpperCase Sample.replayed.method := by
  have hlines : Sample.presented.message.OnLines := ⟨by decide, by decide, by decide⟩
  have hlines' : Sample.replayed.message.OnLines := ⟨by decide, by decide, by decide⟩
  have haccepts : Party.mockOperator.accepts Sample.digests "s".toList 30 90 Sample.presented = true := by
    decide +kernel
  have haccepts' : Party.server.accepts Sample.digests "s".toList 30 125 Sample.replayed = true := by
    decide +kernel
  exact ⟨hlines, hlines', haccepts, haccepts',
    (signature_binds .mockOperator .server hlines hlines' ⟨fun _ => rfl, fun _ => rfl⟩ rfl haccepts
      haccepts').1⟩

end Signing

/-! ## Calls -/

namespace MockOperator

section Calls

variable {crypto : Crypto} {config : Config} {routes : Text → Text → Option Route}
  {readNumber : Text → Option Numeral} {adapter : HttpWalletAdapter}

/-- The routes stand below the path of the wallet. -/
def Mounted (basePath : Text) (routes : Text → Text → Option Route) : Prop :=
  ∀ endpoint : Endpoint, routes "POST".toList (basePath ++ '/' :: endpoint.text) = some (routeFor endpoint)

/-- What a caller gets to see of an answer. -/
def replyTo (res : WalletResponseWire) : WalletReply :=
  ⟨res.status, res.requestUuid, res.balanceMicro.bind BigInt.ofText, res.currency, res.message⟩

/-- **A call and its answer**: it is sent when the adapter's clock is at `sentAt` and arrives when the
operator's is at `nowSec`. -/
def exchange (adapter : HttpWalletAdapter) (config : Config) (crypto : Crypto)
    (routes : Text → Text → Option Route) (readNumber : Text → Option Numeral) (sentAt nowSec : Nat)
    (endpoint : Endpoint) (req : Fields) (s : WalletStore) : WalletStore × Option WalletReply :=
  let answer := walletRouter config crypto nowSec routes readNumber
    (adapter.send crypto sentAt endpoint req) s
  (answer.1, answer.2.bind fun res => HttpWalletAdapter.receive readNumber req.requestUuid (.answered res))

/-- The statuses that the wallet answers with. -/
def servedStatuses : List RsStatus :=
  [.ok, .wrongSyntax, .wrongTypes, .notEnoughMoney, .duplicateTransaction, .transactionNotFound]

/-- A bet or a win has one of the statuses if its refusals have. -/
theorem status_post (s : WalletStore) (kind : TxKind) (key uuid : Text) (amountMicro : Int)
    {refusal : Int → Option RsStatus} (h : ∀ balance, ∀ status ∈ refusal balance, status ∈ servedStatuses) :
    (s.post kind key uuid amountMicro refusal).2.status ∈ servedStatuses := by
  rw [WalletStore.post]
  dsimp only
  split
  · split <;> simp [servedStatuses]
  split
  · exact h _ _ ‹_›
  · simp [servedStatuses]

theorem status_rollback (s : WalletStore) (operatorId playerRef uuid reference : Text) :
    (s.rollback operatorId playerRef uuid reference).2.status ∈ servedStatuses := by
  rw [WalletStore.rollback]
  dsimp only
  split
  · simp [servedStatuses]
  split
  · simp [servedStatuses]
  split
  · simp [servedStatuses]
  split <;> simp [servedStatuses]

theorem status_movement {body : Body} {s : WalletStore} {requestUuid currency : Text}
    {run : Option (WalletStore × TxResult)} (h : ∀ r ∈ run, r.2.status ∈ servedStatuses) :
    (movement body s requestUuid currency run).2.status ∈ servedStatuses := by
  unfold movement
  split
  · simp [servedStatuses]
  split
  · simp [sendError, servedStatuses]
  · exact h _ rfl

/-- **Every answer has one of the statuses.** -/
theorem status_serve (defaultOperatorId : Text) (body : Body) (s : WalletStore) (route : Route) :
    (serve defaultOperatorId body s route).2.status ∈ servedStatuses := by
  have hnone : ((none : Option (WalletStore × WalletResponseWire)).getD
      (s, missingFields body)).2.status ∈ servedStatuses := by
    simp [missingFields, sendError, servedStatuses]
  have hfield : ∀ (field : Option Text) (f : Text → Option (WalletStore × WalletResponseWire)),
      (∀ t, ((f t).getD (s, missingFields body)).2.status ∈ servedStatuses) →
        (((truthy field).bind f).getD (s, missingFields body)).2.status ∈ servedStatuses := by
    intro field f hf
    cases truthy field with
    | none => exact hnone
    | some t => exact hf t
  unfold serve
  cases route with
  | balance =>
      refine hfield _ _ fun requestUuid => hfield _ _ fun playerRef => hfield _ _ fun currency => ?_
      show RsStatus.ok ∈ servedStatuses
      decide
  | bet =>
      refine hfield _ _ fun requestUuid => hfield _ _ fun uuid => hfield _ _ fun playerRef =>
        hfield _ _ fun currency => hfield _ _ fun amountMicro => status_movement ?_
      rintro r hr
      obtain ⟨amount, -, rfl⟩ := Option.map_eq_some_iff.mp hr
      refine status_post s _ _ _ _ fun balance status hstatus => ?_
      split at hstatus
      · exact Option.some.inj hstatus ▸ by decide
      split at hstatus
      · exact Option.some.inj hstatus ▸ by decide
      · cases hstatus
  | win =>
      refine hfield _ _ fun requestUuid => hfield _ _ fun uuid => hfield _ _ fun _ =>
        hfield _ _ fun playerRef => hfield _ _ fun currency => hfield _ _ fun amountMicro =>
          status_movement ?_
      rintro r hr
      obtain ⟨amount, -, rfl⟩ := Option.map_eq_some_iff.mp hr
      refine status_post s _ _ _ _ fun balance status hstatus => ?_
      split at hstatus
      · exact Option.some.inj hstatus ▸ by decide
      · cases hstatus
  | rollback =>
      refine hfield _ _ fun requestUuid => hfield _ _ fun uuid => hfield _ _ fun reference =>
        hfield _ _ fun playerRef => hfield _ _ fun currency => ?_
      show (movement body s requestUuid currency (some (s.rollback _ _ _ _))).2.status ∈ _
      refine status_movement fun r hr => ?_
      obtain rfl := Option.some.inj hr
      exact status_rollback s _ _ _ _

theorem mem_all_of_served : ∀ status ∈ servedStatuses, status ∈ RsStatus.all := by decide

/-- The fields of an answer are readable. -/
theorem parse_json (res : WalletResponseWire) :
    JsonParse.parse readNumber res.json.body = some (.object (entryValues (written res.fields))) := by
  refine JsonParse.parse_print (readable_written ?_ ?_)
  · simp [WalletResponseWire.fields]
  · have htext : ∀ (field : Option Text), ∀ value ∈ field.map textTree, value.Readable readNumber := by
      intro field value hvalue
      obtain ⟨s, -, rfl⟩ := Option.map_eq_some_iff.mp hvalue
      exact trivial
    have hsome : ∀ {tree : Tree}, tree.Readable readNumber →
        ∀ value ∈ some tree, value.Readable readNumber := by
      rintro tree htree value hvalue
      obtain rfl := Option.some.inj hvalue
      exact htree
    intro field hfield
    simp only [WalletResponseWire.fields, List.mem_cons, List.not_mem_nil, or_false] at hfield
    rcases hfield with rfl | rfl | rfl | rfl | rfl
    · exact hsome trivial
    · exact hsome trivial
    · exact htext _
    · exact htext _
    · exact htext _

/-- **An answer is read back.** -/
theorem receive_json {res : WalletResponseWire} (h : res.status ∈ RsStatus.all) (requestUuid : Text) :
    HttpWalletAdapter.receive readNumber requestUuid (.answered res.json) = some (replyTo res) := by
  have hnames : (res.fields.map Prod.fst).Nodup := by simp [WalletResponseWire.fields]
  have hstatus : textField (entryValues (written res.fields)) "status" =
      some (some res.status.text.toList) :=
    textField_some hnames (by simp [WalletResponseWire.fields, textTree])
  have huuid : textField (entryValues (written res.fields)) "requestUuid" = some (some res.requestUuid) :=
    textField_some hnames (by simp [WalletResponseWire.fields])
  have hmessage : textField (entryValues (written res.fields)) "message" = some res.message :=
    textField_written hnames (by simp [WalletResponseWire.fields])
  have hbalance : stringField (entryValues (written res.fields)) "balanceMicro" = res.balanceMicro :=
    stringField_written hnames (by simp [WalletResponseWire.fields])
  have hcurrency : stringField (entryValues (written res.fields)) "currency" = res.currency :=
    stringField_written hnames (by simp [WalletResponseWire.fields])
  have hcode : ¬ 500 ≤ res.json.status := by
    rw [WalletResponseWire.json]
    dsimp only
    split <;> decide
  rw [HttpWalletAdapter.receive, if_neg hcode, parse_json]
  dsimp only
  rw [hstatus, huuid, hmessage, hbalance, hcurrency]
  show some (WalletReply.mk (RsStatus.ofText (String.ofList res.status.text.toList)) _ _ _ _) = _
  rw [String.ofList_toList, RsStatus.ofText_text _ h]
  rfl

/-- The path of a request has no query. -/
theorem pathOf_send (hquery : '?' ∉ adapter.basePath) (sentAt : Nat) (endpoint : Endpoint) (req : Fields) :
    pathOf (adapter.send crypto sentAt endpoint req) = adapter.path endpoint := by
  refine List.takeWhile_eq_self_iff.mpr fun c hc => decide_eq_true ?_
  have hplain : '?' ∉ '/' :: endpoint.text := by cases endpoint <;> decide
  rintro rfl
  rcases List.mem_append.mp hc with hbase | hend
  · exact hquery hbase
  · exact hplain hend

/-- **What the gate says to a request of the adapter.** -/
theorem requireValidSignature_send (hquery : '?' ∉ adapter.basePath)
    (hsecret : adapter.secret = config.walletSecret) (hkid : adapter.kid ≠ []) (sentAt nowSec : Nat)
    (endpoint : Endpoint) (req : Fields) :
    requireValidSignature config crypto nowSec (adapter.send crypto sentAt endpoint req) =
      if |(nowSec : Int) - sentAt| ≤ config.signatureWindowSeconds then none
      else some "stale_timestamp".toList := by
  have hsigned : signPayload crypto adapter.secret (adapter.message sentAt endpoint req) ≠ [] := by
    intro hnil
    have hdecode := decode_signPayload crypto adapter.secret (adapter.message sentAt endpoint req)
    rw [hnil] at hdecode
    exact hmacSha256_ne_nil crypto _ _ hdecode.symm
  have htime : Nat.toDigits 10 sentAt ≠ [] := Nat.toDigits_ne_nil
  have hinbound : verifyInboundSignature crypto config.walletSecret config.signatureWindowSeconds nowSec
      (adapter.send crypto sentAt endpoint req).method (adapter.path endpoint)
      (adapter.send crypto sentAt endpoint req).timestamp
      (adapter.send crypto sentAt endpoint req).signature (adapter.send crypto sentAt endpoint req).body =
        check crypto adapter.secret (adapter.message sentAt endpoint req)
          (signPayload crypto adapter.secret (adapter.message sentAt endpoint req))
          config.signatureWindowSeconds nowSec := by
    show verifyInboundSignature crypto config.walletSecret config.signatureWindowSeconds nowSec _ _
      (some (Nat.toDigits 10 sentAt))
      (some (signPayload crypto adapter.secret (adapter.message sentAt endpoint req))) _ = _
    rw [verifyInboundSignature, filter_given htime, filter_given hsigned, hsecret]
    rfl
  have hgiven : (adapter.send crypto sentAt endpoint req).kid.filter (· ≠ []) = some adapter.kid :=
    filter_given hkid
  rw [requireValidSignature, hgiven]
  dsimp only
  rw [pathOf_send hquery, hinbound, check]
  have hseconds : (adapter.message sentAt endpoint req).timestamp.seconds = some (sentAt : Int) :=
    seconds_toDigits sentAt
  rw [hseconds]
  dsimp only
  by_cases hnear : |(nowSec : Int) - sentAt| ≤ config.signatureWindowSeconds
  · rw [if_pos hnear, if_neg (not_lt.mpr hnear), if_pos rfl]
  · rw [if_neg hnear, if_pos (not_le.mp hnear)]
    rfl

/-- **A call comes through, and its answer back.** While the clocks are inside the window of each other,
the caller gets the answer of the operator's wallet to just the fields of its request, and the wallet
changes as it does for them; otherwise the caller learns that its timestamp is stale, and nothing
changes. -/
theorem call_answered (hroutes : Mounted adapter.basePath routes) (hquery : '?' ∉ adapter.basePath)
    (hsecret : adapter.secret = config.walletSecret) (hkid : adapter.kid ≠ []) {req : Fields}
    (hreq : req.Readable readNumber) (endpoint : Endpoint) (sentAt nowSec : Nat) (s : WalletStore) :
    exchange adapter config crypto routes readNumber sentAt nowSec endpoint req s =
      if |(nowSec : Int) - sentAt| ≤ config.signatureWindowSeconds then
        ((serve config.operatorId (fieldsRead req) s (routeFor endpoint)).1,
          some (replyTo (serve config.operatorId (fieldsRead req) s (routeFor endpoint)).2))
      else (s, some ⟨.invalidSignature, req.requestUuid, none, none, some "stale_timestamp".toList⟩) := by
  have hbody : rawJson readNumber (adapter.send crypto sentAt endpoint req).body =
      some (HttpWallet.bodyOf req endpoint).value := by
    have hne : (HttpWallet.bodyOf req endpoint).print ≠ [] := List.cons_ne_nil _ _
    exact (if_neg hne).trans (parse_body hreq endpoint)
  have hroute : routes (toUpperCase (adapter.send crypto sentAt endpoint req).method)
      (adapter.path endpoint) = some (routeFor endpoint) := hroutes endpoint
  unfold exchange walletRouter
  rw [hbody, pathOf_send hquery, hroute]
  dsimp only
  rw [requireValidSignature_send hquery hsecret hkid]
  by_cases hnear : |(nowSec : Int) - sentAt| ≤ config.signatureWindowSeconds
  · rw [if_pos hnear, if_pos hnear, ofValue_bodyOf]
    dsimp only
    rw [serve_sentFields, Option.bind_some, receive_json (mem_all_of_served _ (status_serve _ _ _ _))]
  · rw [if_neg hnear, if_neg hnear]
    have huuid : requestUuidOf (HttpWallet.bodyOf req endpoint).value = some req.requestUuid := by
      have hfield : textField (entryValues (written (fieldsOf req endpoint))) "requestUuid" =
          some (some req.requestUuid) :=
        textField_some (nodup_fieldsOf req endpoint) (by cases endpoint <;> simp [fieldsOf])
      show (textField (entryValues (written (fieldsOf req endpoint))) "requestUuid").map _ = _
      rw [hfield]
      rfl
    have hrefuse : refuse (HttpWallet.bodyOf req endpoint).value "stale_timestamp".toList =
        some ⟨.invalidSignature, req.requestUuid, none, none, some "stale_timestamp".toList⟩ := by
      unfold refuse
      rw [huuid]
      rfl
    dsimp only
    rw [hrefuse, Option.map_some, Option.bind_some, receive_json (by simp [RsStatus.all])]
    rfl

end Calls

/-! ## A call -/

namespace Sample

/-- The operator's configuration. -/
def config : Config := ⟨"op".toList, "s".toList, 30⟩

/-- The adapter for it. -/
def adapter : HttpWalletAdapter := ⟨"kid".toList, "s".toList, "/wallet".toList⟩

/-- The routes of the wallet. -/
def routes (method path : Text) : Option Route :=
  if method = "POST".toList then
    ([.balance, .bet, .win, .rollback].find? fun endpoint : Endpoint =>
      path = "/wallet/".toList ++ endpoint.text).map routeFor
  else none

/-- A bet of ten thousand micro-units. -/
def betFields : Fields where
  requestUuid := "r1".toList
  transactionUuid := some "t1".toList
  referenceTransactionUuid := none
  operatorId := "op".toList
  playerRef := "p-alice".toList
  currency := "HNL".toList
  gameCode := "lempi-crash".toList
  amountMicro := some 10000
  roundId := some "round".toList
  isFree := none
  extra := none

end Sample

/-- A bet comes through ten seconds later, and its answer back. -/
theorem call_answered_bet : Mounted "/wallet".toList Sample.routes ∧
    Sample.betFields.Readable plainNumeral ∧
    (exchange Sample.adapter Sample.config Signing.Sample.digests Sample.routes plainNumeral 100 110 .bet
      Sample.betFields (.init "op".toList)).2 =
        some ⟨.ok, "r1".toList, some 999990000, some "HNL".toList, none⟩ := by
  have hroutes : Mounted "/wallet".toList Sample.routes := by
    intro endpoint
    cases endpoint <;> decide
  have hreadable : Sample.betFields.Readable plainNumeral := ⟨by decide, trivial⟩
  refine ⟨hroutes, hreadable, ?_⟩
  have hcall : exchange Sample.adapter Sample.config Signing.Sample.digests Sample.routes plainNumeral 100
      110 .bet Sample.betFields (.init "op".toList) = _ :=
    call_answered hroutes (by decide) rfl (by decide) hreadable .bet 100 110 (.init "op".toList)
  rw [hcall, if_pos (by decide)]
  decide +kernel

end MockOperator

end YantraRgs
