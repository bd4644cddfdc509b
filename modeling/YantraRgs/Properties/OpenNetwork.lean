import Mathlib.Data.List.Forall2
import YantraRgs.Properties.MockContract
import YantraRgs.Properties.SignedCalls

/-! # Calls over an open network

Between the adapter and the mock operator anybody may read, repeat, reorder, drop and change what is sent,
and send requests of their own, at any time. As long as signatures cannot be forged, the operator answers
just requests that the adapter sent, each within the window around its sending, and keeps to the wallet
contract in what it answers.

* **`Deployment`** — an adapter and an operator that fit together.
* **`Network`**, **`Reached`** — the states that are reached, whatever is delivered.
* **`Unforged`** — the condition on what is delivered.
* **`network_conforms`** — the property in every state reached. -/

namespace YantraRgs.MockOperator

open HttpWallet Signing

/-- How requests are written as fields. -/
structure Wire extends Rendering where
  gameCode : GameCode → Text
  roundId : Nat → Text
  isFree : WalletRequest → Option Bool
  extra : WalletRequest → Option (List (String × Tree))

/-- The fields of a request. -/
def Wire.fieldsOf (W : Wire) (req : WalletRequest) : Fields where
  requestUuid := W.uuid req.requestUuid
  transactionUuid := req.transactionUuid.map W.uuid
  referenceTransactionUuid := req.referenceTransactionUuid.map W.uuid
  operatorId := W.operator req.operatorId
  playerRef := playerText req
  currency := W.currency req.currency
  gameCode := W.gameCode req.gameCode
  amountMicro := req.amountMicro
  roundId := req.roundId.map W.roundId
  isFree := W.isFree req
  extra := W.extra req

/-- The endpoint that a request is sent to. -/
def endpointOf : WalletEndpoint → Option Endpoint
  | .balance => some .balance
  | .bet => some .bet
  | .win => some .win
  | .rollback => some .rollback
  | .endRound => none

/-- **An adapter and an operator** with one secret, and routes where the adapter calls. -/
structure Deployment where
  crypto : Crypto
  config : Config
  adapter : HttpWalletAdapter
  routes : Text → Text → Option Route
  readNumber : Text → Option Numeral
  wire : Wire
  mounted : Mounted adapter.basePath routes
  plain : '?' ∉ adapter.basePath ∧ '\n' ∉ adapter.basePath
  secret : adapter.secret = config.walletSecret
  readable : ∀ req, (wire.fieldsOf req).Readable readNumber

/-- **The network**: what the adapter sent and when, the operator's wallets, and the times of the
operator's clock at which it answered a request, the latest first. -/
structure Network where
  sent : List (Nat × WalletRequest)
  store : WalletStore
  served : List Nat

/-- The method, the path and the timestamp of a request stand on one line each. -/
structure OneLine (request : HttpRequest) : Prop where
  method : request.method ≠ [] ∧ '\n' ∉ request.method
  path : pathOf request ≠ [] ∧ '\n' ∉ pathOf request
  timestamp : ∀ t ∈ request.timestamp, '\n' ∉ t

section Runs

variable (d : Deployment)

/-- The operator receives a request. -/
def Network.deliver (n : Network) (nowSec : Nat) (request : HttpRequest) : Network :=
  let answer := walletRouter d.config d.crypto nowSec d.routes d.readNumber request n.store
  { n with
    store := answer.1
    served := if answer.2.any (·.status = 200) then nowSec :: n.served else n.served }

/-- The message that a sent request is signed as. -/
def Deployment.messageOf (sentAt : Nat) (endpoint : Endpoint) (req : WalletRequest) : Message :=
  d.adapter.message sentAt endpoint (d.wire.fieldsOf req)

/-- **A request is not forged**: if its signature has the bytes of the digest, the adapter signed the same
text, for the same body. -/
def Unforged (sent : List (Nat × WalletRequest)) (request : HttpRequest) : Prop :=
  ∀ t signature, request.timestamp = some t → request.signature = some signature →
    Base64.decode signature = d.crypto.hmacSha256 d.config.walletSecret
      (canonicalString d.crypto ⟨request.method, pathOf request, .text t, request.body⟩) →
    ∃ x ∈ sent, ∃ endpoint, endpointOf x.2.endpoint = some endpoint ∧
      canonicalString d.crypto ⟨request.method, pathOf request, .text t, request.body⟩ =
        canonicalString d.crypto (d.messageOf x.1 endpoint x.2) ∧
      (d.crypto.sha256Hex request.body = d.crypto.sha256Hex (d.messageOf x.1 endpoint x.2).body →
        request.body = (d.messageOf x.1 endpoint x.2).body)

/-- **The states that are reached.** -/
inductive Reached : Network → Prop
  | start : Reached ⟨[], .init d.config.operatorId, []⟩
  /-- The adapter sends a request. -/
  | send {n : Network} (hn : Reached n) (nowSec : Nat) (req : WalletRequest) :
      Reached { n with sent := (nowSec, req) :: n.sent }
  /-- Anything is delivered that is not forged. -/
  | deliver {n : Network} (hn : Reached n) (nowSec : Nat) (request : HttpRequest)
      (hline : OneLine request) (hunforged : Unforged d n.sent request) :
      Reached (n.deliver d nowSec request)

end Runs

/-! ## One delivery -/

section Delivery

variable {d : Deployment} {n : Network} {request : HttpRequest} {nowSec : Nat}

/-- A request that passes the gate has a signature that verifies. -/
theorem check_of_gate (h : requireValidSignature d.config d.crypto nowSec request = none) :
    ∃ t signature, request.timestamp = some t ∧ request.signature = some signature ∧
      check d.crypto d.config.walletSecret ⟨request.method, pathOf request, .text t, request.body⟩ signature
        d.config.signatureWindowSeconds nowSec = .ok () := by
  unfold requireValidSignature at h
  split at h
  · cases h
  split at h
  · exact verifyInboundSignature_eq_ok ‹_›
  · cases h

/-- The message of a sent request stands on one line for each part. -/
theorem onLines_messageOf (d : Deployment) (sentAt : Nat) (endpoint : Endpoint) (req : WalletRequest) :
    (d.messageOf sentAt endpoint req).OnLines where
  method := by
    show "POST".toList ≠ [] ∧ '\n' ∉ "POST".toList
    decide
  path := by
    refine ⟨List.append_ne_nil_of_right_ne_nil _ (List.cons_ne_nil _ _), fun hmem => ?_⟩
    have hplain : '\n' ∉ '/' :: endpoint.text := by cases endpoint <;> decide
    rcases List.mem_append.mp hmem with hbase | hend
    · exact d.plain.2 hbase
    · exact hplain hend
  timestamp :=
    ⟨Nat.toDigits_ne_nil, fun hmem => absurd (isDigit_of_mem_toDigits hmem) (by decide)⟩

/-- **A delivery changes nothing, or answers a request that was sent** within the window. -/
theorem deliver_cases (hline : OneLine request) (hunforged : Unforged d n.sent request) :
    n.deliver d nowSec request = n ∨
    ∃ sentAt req endpoint, (sentAt, req) ∈ n.sent ∧ endpointOf req.endpoint = some endpoint ∧
      |(nowSec : Int) - sentAt| ≤ d.config.signatureWindowSeconds ∧
      n.deliver d nowSec request =
        { n with
          store := (serve d.config.operatorId (fieldsRead (d.wire.fieldsOf req)) n.store
            (routeFor endpoint)).1
          served := nowSec :: n.served } := by
  unfold Network.deliver walletRouter
  split
  · exact .inl rfl
  rename_i body hparsed
  split
  · exact .inl rfl
  rename_i route hroute
  split
  · left
    rename_i reason _
    unfold refuse
    cases requestUuidOf body <;> rfl
  rename_i hgate
  -- the signature verifies, so the request was sent
  obtain ⟨t, signature, ht, hs, hcheck⟩ := check_of_gate hgate
  obtain ⟨⟨seconds, hseconds, hnear⟩, hbytes⟩ := check_eq_ok.mp hcheck
  obtain ⟨⟨sentAt, req⟩, hmem, endpoint, hendpoint, hcanonical, hbody⟩ :=
    hunforged t signature ht hs hbytes
  have htime : t ≠ [] := by
    rintro rfl
    cases hseconds
  have hlines : Message.OnLines ⟨request.method, pathOf request, .text t, request.body⟩ :=
    ⟨hline.method, hline.path, htime, hline.timestamp t ht⟩
  obtain ⟨hmethod, hpath, htimestamp, hdigest⟩ :=
    canonicalString_inj hlines (onLines_messageOf d sentAt endpoint req) hcanonical
  have hsent : request.body = (HttpWallet.bodyOf (d.wire.fieldsOf req) endpoint).print := hbody hdigest
  have hclock : seconds = (sentAt : Int) := by
    have hread : (Timestamp.text t).seconds = (Timestamp.text (Nat.toDigits 10 sentAt)).seconds :=
      congrArg (fun s => (Timestamp.text s).seconds) htimestamp
    rw [seconds_toDigits] at hread
    exact Option.some.inj (hseconds.symm.trans hread)
  -- so it is parsed and routed as it was sent
  obtain rfl : route = routeFor endpoint := by
    have hmounted : d.routes (toUpperCase request.method) (pathOf request) = some (routeFor endpoint) := by
      have hsame : pathOf request = (d.messageOf sentAt endpoint req).path := hpath
      rw [hmethod, hsame]
      exact d.mounted endpoint
    exact Option.some.inj (hroute.symm.trans hmounted)
  obtain rfl : body = (HttpWallet.bodyOf (d.wire.fieldsOf req) endpoint).value := by
    have hne : request.body ≠ [] := hsent ▸ List.cons_ne_nil _ _
    rw [rawJson, if_neg hne, hsent, parse_body (d.readable req)] at hparsed
    exact (Option.some.inj hparsed).symm
  right
  refine ⟨sentAt, req, endpoint, hmem, hendpoint, hclock ▸ hnear, ?_⟩
  rw [ofValue_bodyOf]
  dsimp only
  have hstatus : (serve d.config.operatorId (sentFields (d.wire.fieldsOf req) endpoint) n.store
      (routeFor endpoint)).2.json.status = 200 := by
    have hserved := status_serve d.config.operatorId (sentFields (d.wire.fieldsOf req) endpoint) n.store
      (routeFor endpoint)
    refine if_neg fun hinvalid => ?_
    rw [hinvalid] at hserved
    exact absurd hserved (by decide)
  rw [Option.any_some, hstatus, serve_sentFields]
  rfl

/-- The wallet reads the fields of a request as the contract has them. -/
theorem fieldsRead_fieldsOf (W : Wire) (req : WalletRequest) :
    fieldsRead (W.fieldsOf req) = bodyOf W.toRendering req := rfl

end Delivery

/-! ## Runs -/

section Runs

variable {d : Deployment} {n : Network}

/-- A request that fits to each of some requests fits to all of them. -/
theorem fits_of_each {past : List WalletRequest} {req : WalletRequest} (hself : req.endpoint ≠ .endRound)
    (h : ∀ r ∈ past, Fits [r] req) : Fits past req where
  served := hself
  request r hr := (h r hr).request r (List.mem_singleton_self r)
  rollback r hr := (h r hr).rollback r (List.mem_singleton_self r)
  player he r hr := (h r hr).player he r (List.mem_singleton_self r)

/-- **Every state reached** has answered requests that were sent, as the contract allows. -/
theorem reached_conforms (h : Reached d n) (hfits : ∀ x ∈ n.sent, ∀ y ∈ n.sent, Fits [x.2] y.2) :
    ∃ reqs ledger, Conforms d.wire.toRendering d.config.operatorId d.config.operatorId reqs n.store ledger ∧
      Refines d.wire.toRendering n.store ledger ∧ Remembers d.wire.toRendering reqs n.store ledger ∧
      List.Forall₂ (fun req nowSec => ∃ sentAt, (sentAt, req) ∈ n.sent ∧
        |((nowSec : Nat) : Int) - (sentAt : Nat)| ≤ d.config.signatureWindowSeconds) reqs n.served := by
  induction h with
  | start =>
      exact ⟨[], [], .start, ⟨fun _ h => (nomatch h), fun _ _ h => (nomatch h)⟩,
        ⟨fun _ _ h => (nomatch h), fun _ _ h => (nomatch h), fun _ h => absurd h (Finset.notMem_empty _)⟩,
        .nil⟩
  | send hn nowSec req ih =>
      obtain ⟨reqs, ledger, hconforms, hs, hm, hsent⟩ := ih fun x hx y hy =>
        hfits x (List.mem_cons_of_mem _ hx) y (List.mem_cons_of_mem _ hy)
      refine ⟨reqs, ledger, hconforms, hs, hm, hsent.imp fun r t hr => ?_⟩
      obtain ⟨sentAt, hmem, hnear⟩ := hr
      exact ⟨sentAt, List.mem_cons_of_mem _ hmem, hnear⟩
  | @deliver n hn nowSec request hline hunforged ih =>
      rcases deliver_cases hline hunforged with heq | ⟨sentAt, req, endpoint, hmem, hendpoint, hnear, heq⟩
      · rw [heq] at hfits ⊢
        exact ih hfits
      · rw [heq] at hfits ⊢
        obtain ⟨reqs, ledger, hconforms, hs, hm, hsent⟩ := ih hfits
        have hroute : routeOf req.endpoint = some (routeFor endpoint) := by
          cases he : req.endpoint <;> rw [he] at hendpoint <;> cases hendpoint <;> rfl
        have hpast : ∀ r ∈ reqs, ∃ sentAt, (sentAt, r) ∈ n.sent :=
          ((List.forall₂_and_left reqs n.served).mp (hsent.imp fun _ _ hr => ⟨hr.imp fun _ => And.left, hr⟩)).1
        have hfit : Fits reqs req := by
          refine fits_of_each (hfits _ hmem _ hmem).served fun r hr => ?_
          obtain ⟨earlier, hr⟩ := hpast r hr
          exact hfits _ hr _ hmem
        obtain ⟨ledger', haccepts, hs', hm'⟩ := served_request hs hm hfit hroute d.config.operatorId
        exact ⟨req :: reqs, ledger', .step req _ hconforms hroute haccepts, hs', hm',
          .cons ⟨sentAt, hmem, hnear⟩ hsent⟩

/-- **Over an open network the mock operator keeps to the wallet contract.** Whatever is delivered, however
often and in whatever order: if no signature is forged and the requests that were sent fit together, the
operator answered a sequence of requests that were sent, each while its clock was inside the window of the
sending, and every answer is one that the contract allows. -/
theorem network_conforms (h : Reached d n) (hfits : ∀ x ∈ n.sent, ∀ y ∈ n.sent, Fits [x.2] y.2) :
    ∃ reqs ledger, Conforms d.wire.toRendering d.config.operatorId d.config.operatorId reqs n.store ledger ∧
      Refines d.wire.toRendering n.store ledger ∧
      List.Forall₂ (fun req nowSec => ∃ sentAt, (sentAt, req) ∈ n.sent ∧
        |((nowSec : Nat) : Int) - (sentAt : Nat)| ≤ d.config.signatureWindowSeconds) reqs n.served := by
  obtain ⟨reqs, ledger, hconforms, hs, -, hsent⟩ := reached_conforms h hfits
  exact ⟨reqs, ledger, hconforms, hs, hsent⟩

end Runs

/-! ## A replay -/

namespace Sample

/-- Requests without `meta`. -/
def wire : Wire where
  toRendering := rendering
  gameCode := Nat.toDigits 10
  roundId := Nat.toDigits 10
  isFree _ := none
  extra _ := none

/-- The adapter and the operator of the sample call. -/
def deployment : Deployment where
  crypto := Signing.Sample.digests
  config := config
  adapter := adapter
  routes := routes
  readNumber := plainNumeral
  wire := wire
  mounted endpoint := by cases endpoint <;> decide
  plain := by decide
  secret := rfl
  readable _ := ⟨List.nodup_nil, trivial⟩

/-- A bet. -/
def bet : WalletRequest := request .bet 1 (some (tx 1)) none (some 10)

/-- The bet as it is sent at the time 100. -/
def betRequest : HttpRequest :=
  deployment.adapter.send deployment.crypto 100 .bet (deployment.wire.fieldsOf bet)

/-- The bet is sent, and delivered twice. -/
def network : Network :=
  Network.deliver deployment
    (Network.deliver deployment ⟨[(100, bet)], .init "op".toList, []⟩ 110 betRequest) 120 betRequest

end Sample

/-- **A replayed bet is answered twice**, and the contract holds. -/
theorem network_conforms_replayed : Reached Sample.deployment Sample.network ∧
    Sample.network.served = [120, 110] ∧
      ∃ reqs ledger, Conforms Sample.rendering "op".toList "op".toList reqs Sample.network.store ledger ∧
        Refines Sample.rendering Sample.network.store ledger := by
  have hline : OneLine Sample.betRequest := by
    refine ⟨by decide, by decide, fun t ht => ?_⟩
    obtain rfl := Option.some.inj ht
    decide
  have hunforged : Unforged Sample.deployment [(100, Sample.bet)] Sample.betRequest := by
    intro t signature ht hs hbytes
    obtain rfl := Option.some.inj ht
    exact ⟨_, List.mem_singleton_self _, .bet, rfl, rfl, fun _ => rfl⟩
  have hreached : Reached Sample.deployment Sample.network :=
    .deliver (.deliver (.send .start 100 Sample.bet) 110 _ hline hunforged) 120 _ hline hunforged
  have hfits : ∀ x ∈ Sample.network.sent, ∀ y ∈ Sample.network.sent, Fits [x.2] y.2 := by
    intro x hx y hy
    obtain rfl := List.mem_singleton.mp hx
    obtain rfl := List.mem_singleton.mp hy
    decide +kernel
  obtain ⟨reqs, ledger, hconforms, hs, -⟩ := network_conforms hreached hfits
  exact ⟨hreached, by decide +kernel, reqs, ledger, hconforms, hs⟩

end YantraRgs.MockOperator
