import YantraRgs.MockOperator.Store
import YantraRgs.Services.JsonFields
import YantraRgs.Text.Integer

/-! # The requests to the mock operator

The operator answers four requests. A request that it answered with a success before is answered with the
same balance again, whatever else it says.

* **`Body`** — the fields of a request that are read; **`Body.ofValue`** — a parsed body.
* **`WalletResponseWire`** — an answer.
* **`serve`** — one request; **`after`** — a run of requests. -/

namespace YantraRgs.MockOperator

open JsonFields

/-- **The fields of a body that are read.** A missing field is `none`. -/
structure Body where
  requestUuid : Option Text
  transactionUuid : Option Text
  referenceTransactionUuid : Option Text
  operatorId : Option Text
  playerRef : Option Text
  currency : Option Text
  amountMicro : Option Text
  deriving DecidableEq

/-- **The fields of a parsed body.** What is no object has none of them; bodies with other values than
texts are left out. -/
def Body.ofValue : Value → Option Body
  | .object es => do
      some {
        requestUuid := ← textField es "requestUuid"
        transactionUuid := ← textField es "transactionUuid"
        referenceTransactionUuid := ← textField es "referenceTransactionUuid"
        operatorId := ← textField es "operatorId"
        playerRef := ← textField es "playerRef"
        currency := ← textField es "currency"
        amountMicro := ← textField es "amountMicro" }
  | _ => some ⟨none, none, none, none, none, none, none⟩

/-- An answer. -/
structure WalletResponseWire where
  status : RsStatus
  requestUuid : Text
  balanceMicro : Option Text
  currency : Option Text
  message : Option Text
  deriving DecidableEq

/-- The requests that are answered. -/
inductive Route
  | balance
  | bet
  | win
  | rollback
  deriving DecidableEq

/-- The decimal text of an amount. -/
def microText (n : Int) : Text := (toString n).toList

/-- A field that is there and not empty. -/
def truthy (field : Option Text) : Option Text := field.filter (· ≠ [])

section Serve

variable (defaultOperatorId : Text) (body : Body) (s : WalletStore)

/-- An error. -/
def sendError (status : RsStatus) (message : Text) : WalletResponseWire :=
  ⟨status, body.requestUuid.getD [], none, none, some message⟩

/-- A body that lacks a field. -/
def missingFields : WalletResponseWire := sendError body .wrongSyntax "missing required fields".toList

/-- The operator that a body names. -/
def Body.operator : Text := body.operatorId.getD defaultOperatorId

/-- **A movement**: a remembered request gets its answer again, an amount that is none is an error, and
otherwise the movement is made. -/
def movement (requestUuid currency : Text) (run : Option (WalletStore × TxResult)) :
    WalletStore × WalletResponseWire :=
  match s.recallRequest requestUuid with
  | some prev => (s, ⟨.ok, requestUuid, some (microText prev), some currency, none⟩)
  | none =>
      match run with
      | none => (s, sendError body .wrongTypes "amountMicro must be integer string".toList)
      | some (s', result) =>
          (if result.status = .ok then s'.rememberRequest requestUuid result.balanceMicro else s',
            ⟨result.status, requestUuid, some (microText result.balanceMicro), some currency, none⟩)

/-- `POST /balance`. -/
def balanceRoute : Option (WalletStore × WalletResponseWire) := do
  let requestUuid ← truthy body.requestUuid
  let playerRef ← truthy body.playerRef
  let currency ← truthy body.currency
  let key := keyOf (body.operator defaultOperatorId) playerRef
  some (s.getOrInit key,
    ⟨.ok, requestUuid, some (microText (s.balanceAt key)), some currency, none⟩)

/-- `POST /bet`. -/
def betRoute : Option (WalletStore × WalletResponseWire) := do
  let requestUuid ← truthy body.requestUuid
  let transactionUuid ← truthy body.transactionUuid
  let playerRef ← truthy body.playerRef
  let currency ← truthy body.currency
  let amountMicro ← truthy body.amountMicro
  some (movement body s requestUuid currency ((BigInt.ofText amountMicro).map fun amount =>
    s.bet (body.operator defaultOperatorId) playerRef transactionUuid amount))

/-- `POST /win`. -/
def winRoute : Option (WalletStore × WalletResponseWire) := do
  let requestUuid ← truthy body.requestUuid
  let transactionUuid ← truthy body.transactionUuid
  let _ ← truthy body.referenceTransactionUuid
  let playerRef ← truthy body.playerRef
  let currency ← truthy body.currency
  let amountMicro ← truthy body.amountMicro
  some (movement body s requestUuid currency ((BigInt.ofText amountMicro).map fun amount =>
    s.win (body.operator defaultOperatorId) playerRef transactionUuid amount))

/-- `POST /rollback`. -/
def rollbackRoute : Option (WalletStore × WalletResponseWire) := do
  let requestUuid ← truthy body.requestUuid
  let transactionUuid ← truthy body.transactionUuid
  let referenceTransactionUuid ← truthy body.referenceTransactionUuid
  let playerRef ← truthy body.playerRef
  let currency ← truthy body.currency
  some (movement body s requestUuid currency
    (some (s.rollback (body.operator defaultOperatorId) playerRef transactionUuid
      referenceTransactionUuid)))

/-- **One request.** -/
def serve (route : Route) : WalletStore × WalletResponseWire :=
  (match route with
    | .balance => balanceRoute defaultOperatorId body s
    | .bet => betRoute defaultOperatorId body s
    | .win => winRoute defaultOperatorId body s
    | .rollback => rollbackRoute defaultOperatorId body s).getD (s, missingFields body)

end Serve

/-- **A run of requests**, the earliest one first. -/
def after (defaultOperatorId : Text) (s : WalletStore) (requests : List (Route × Body)) : WalletStore :=
  requests.foldl (fun s r => (serve defaultOperatorId r.2 s r.1).1) s

/-! ## What a request does -/

namespace WalletStore

/-- **What a request changes** of the balances and the ledger: nothing; or it books a movement, which the
balance covers; or it reverses one. -/
inductive Changed (s : WalletStore) : WalletStore → Prop
  | kept {s' : WalletStore} (hbalance : ∀ k, s'.balanceAt k = s.balanceAt k) (hledger : s'.ledger = s.ledger) :
      Changed s s'
  | booked {s' : WalletStore} (uuid : Text) (entry : LedgerEntry) (hnew : s.ledger.lookup uuid = none)
      (hamount : 0 ≤ entry.amountMicro) (hopen : entry.rolledBack = false)
      (hcovered : 0 ≤ s.balanceAt entry.key → 0 ≤ s.balanceAt entry.key + entry.delta)
      (hbalance : ∀ k, s'.balanceAt k =
        if k = entry.key then s.balanceAt entry.key + entry.delta else s.balanceAt k)
      (hledger : s'.ledger = s.ledger.insert uuid entry) : Changed s s'
  | reversed {s' : WalletStore} (uuid : Text) (original : LedgerEntry)
      (hold : s.ledger.lookup uuid = some original) (hopen : original.rolledBack = false)
      (hbalance : ∀ k, s'.balanceAt k =
        if k = original.key then reversedBalance (s.balanceAt original.key) original else s.balanceAt k)
      (hledger : s'.ledger = s.ledger.insert uuid { original with rolledBack := true }) : Changed s s'

variable (s : WalletStore)

theorem Changed.refl : s.Changed s := .kept (fun _ => rfl) rfl

theorem Changed.getOrInit (key : Text) : s.Changed (s.getOrInit key) :=
  .kept (fun k => s.balanceAt_getOrInit key k) (s.ledger_getOrInit key)

/-- Remembering the request changes neither the balances nor the ledger. -/
theorem Changed.rememberRequest {s s' : WalletStore} (h : s.Changed s') (requestUuid : Text)
    (balanceMicro : Int) : s.Changed (s'.rememberRequest requestUuid balanceMicro) := by
  cases h with
  | kept hbalance hledger => exact .kept hbalance hledger
  | booked uuid entry hnew hamount hopen hcovered hbalance hledger =>
      exact .booked uuid entry hnew hamount hopen hcovered hbalance hledger
  | reversed uuid original hold hopen hbalance hledger =>
      exact .reversed uuid original hold hopen hbalance hledger

/-- **A bet or a win** that the balance covers once nothing speaks against it. -/
theorem changed_post (kind : TxKind) (key uuid : Text) (amountMicro : Int)
    (refusal : Int → Option RsStatus)
    (hcovered : ∀ balance, refusal balance = none → 0 ≤ amountMicro ∧
      (0 ≤ balance → 0 ≤ balance + LedgerEntry.delta ⟨kind, key, amountMicro, false⟩)) :
    s.Changed (s.post kind key uuid amountMicro refusal).1 := by
  rw [post]
  dsimp only
  split
  · split <;> exact .getOrInit s key
  · rename_i hnew
    split
    · exact .getOrInit s key
    · rename_i hok
      obtain ⟨hamount, hcover⟩ := hcovered _ hok
      refine .booked uuid _ hnew hamount rfl hcover (fun k => ?_) rfl
      rw [balanceAt_setEntry, balanceAt_setBalance]

theorem changed_bet (operatorId playerRef uuid : Text) (amountMicro : Int) :
    s.Changed (s.bet operatorId playerRef uuid amountMicro).1 := by
  refine s.changed_post _ _ _ _ _ fun balance h => ?_
  split at h
  · cases h
  split at h
  · cases h
  · rename_i hpos hle
    refine ⟨by omega, fun _ => ?_⟩
    show 0 ≤ balance + -amountMicro
    omega

theorem changed_win (operatorId playerRef uuid : Text) (amountMicro : Int) :
    s.Changed (s.win operatorId playerRef uuid amountMicro).1 := by
  refine s.changed_post _ _ _ _ _ fun balance h => ?_
  split at h
  · cases h
  · rename_i hpos
    refine ⟨by omega, fun hbalance => ?_⟩
    show 0 ≤ balance + amountMicro
    omega

theorem changed_rollback (operatorId playerRef uuid reference : Text) :
    s.Changed (s.rollback operatorId playerRef uuid reference).1 := by
  rw [rollback]
  dsimp only
  split
  · exact .getOrInit s _
  split
  · exact .getOrInit s _
  rename_i original hold
  split
  · exact .getOrInit s _
  rename_i hkey
  split
  · exact .kept (fun k => s.balanceAt_getOrInit _ k) (s.ledger_getOrInit _)
  · rename_i hopen
    rw [not_not] at hkey
    refine .reversed reference original hold (by simpa using hopen) (fun k => ?_) rfl
    rw [hkey]
    exact balanceAt_setBalance s _ k _

/-- A movement changes what it changes once it is not a repetition. -/
theorem changed_movement {body : Body} {requestUuid currency : Text}
    {run : Option (WalletStore × TxResult)} (h : ∀ r ∈ run, s.Changed r.1) :
    s.Changed (movement body s requestUuid currency run).1 := by
  unfold movement
  split
  · exact .refl s
  split
  · exact .refl s
  · rename_i s' result hrun
    have hchanged := h _ rfl
    dsimp only
    split
    · exact hchanged.rememberRequest _ _
    · exact hchanged

end WalletStore

open WalletStore in
/-- **What one request does** to the balances and the ledger. -/
theorem changed_serve (defaultOperatorId : Text) (body : Body) (s : WalletStore) (route : Route) :
    s.Changed (serve defaultOperatorId body s route).1 := by
  have hnone : s.Changed ((none : Option (WalletStore × WalletResponseWire)).getD
      (s, missingFields body)).1 := .refl s
  have hbound : ∀ (field : Option Text) (f : Text → Option (WalletStore × WalletResponseWire)),
      (∀ t, s.Changed ((f t).getD (s, missingFields body)).1) →
        s.Changed (((truthy field).bind f).getD (s, missingFields body)).1 := by
    intro field f hf
    cases truthy field with
    | none => exact hnone
    | some t => exact hf t
  unfold serve
  cases route with
  | balance =>
      exact hbound _ _ fun requestUuid => hbound _ _ fun playerRef => hbound _ _ fun currency =>
        .getOrInit s _
  | bet =>
      refine hbound _ _ fun requestUuid => hbound _ _ fun uuid => hbound _ _ fun playerRef =>
        hbound _ _ fun currency => hbound _ _ fun amountMicro => s.changed_movement ?_
      rintro r hr
      obtain ⟨amount, -, rfl⟩ := Option.map_eq_some_iff.mp hr
      exact s.changed_bet _ _ _ _
  | win =>
      refine hbound _ _ fun requestUuid => hbound _ _ fun uuid => hbound _ _ fun _ =>
        hbound _ _ fun playerRef => hbound _ _ fun currency => hbound _ _ fun amountMicro =>
          s.changed_movement ?_
      rintro r hr
      obtain ⟨amount, -, rfl⟩ := Option.map_eq_some_iff.mp hr
      exact s.changed_win _ _ _ _
  | rollback =>
      refine hbound _ _ fun requestUuid => hbound _ _ fun uuid => hbound _ _ fun reference =>
        hbound _ _ fun playerRef => hbound _ _ fun currency => ?_
      show s.Changed (movement body s requestUuid currency (some (s.rollback _ _ _ _))).1
      refine s.changed_movement fun r hr => ?_
      obtain rfl := Option.some.inj hr
      exact s.changed_rollback _ _ _ _

end YantraRgs.MockOperator
