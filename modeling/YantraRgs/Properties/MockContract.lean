import YantraRgs.MockOperator.Router
import YantraRgs.Text.Split
import YantraRgs.Wallet.Ledger

/-! # The mock operator keeps to the wallet contract

The contract says what an operator may answer to a request, given the transactions that it booked. The
mock operator is one that keeps to it, as long as a request identifier stands for one request, a rollback
identifier for one rollback, and a rollback names the player of its transaction.

* **`Rendering`** — how identifiers are written; **`bodyOf`** — the body of a request.
* **`Fits`**, **`Consistent`** — the condition on the requests.
* **`Conforms`** — every answer is one that the contract allows; **`Refines`** — the ledger of the mock
  operator is that of the contract.
* **`mock_conforms`** — the property along every run of consistent requests. -/

namespace YantraRgs.MockOperator

/-- **How identifiers are written**: different identifiers are different texts. -/
structure Rendering where
  uuid : Uuid → Text
  uuid_injective : Function.Injective uuid
  operator : OperatorId → Text
  currency : Currency → Text

/-- The request that is answered for an endpoint. -/
def routeOf : WalletEndpoint → Option Route
  | .balance => some .balance
  | .bet => some .bet
  | .win => some .win
  | .rollback => some .rollback
  | .endRound => none

variable (R : Rendering)

/-- The player of a request. -/
def playerText (req : WalletRequest) : Text := req.playerRef.text.toList

/-- The key of the wallet that a request is about. -/
def walletKey (req : WalletRequest) : Text := keyOf (R.operator req.operatorId) (playerText req)

/-- **The body of a request.** -/
def bodyOf (req : WalletRequest) : Body where
  requestUuid := some (R.uuid req.requestUuid)
  transactionUuid := req.transactionUuid.map R.uuid
  referenceTransactionUuid := req.referenceTransactionUuid.map R.uuid
  operatorId := some (R.operator req.operatorId)
  playerRef := some (playerText req)
  currency := some (R.currency req.currency)
  amountMicro := req.amountMicro.map microText

/-- An answer is one that the contract allows, and leads to the ledger `ledger'`. -/
def Accepts (ledger : Ledger) (req : WalletRequest) (res : WalletResponseWire) (ledger' : Ledger) :
    Prop :=
  ∃ v, ledger.process req v = some ledger' ∧ v.status = res.status ∧
    v.balanceMicro.map microText = res.balanceMicro

/-- **Every answer to a run of requests is one that the contract allows**, the latest request first. -/
inductive Conforms (operatorId defaultOperatorId : Text) :
    List WalletRequest → WalletStore → Ledger → Prop
  | start : Conforms operatorId defaultOperatorId [] (.init operatorId) []
  | step {past : List WalletRequest} {s : WalletStore} {ledger ledger' : Ledger} (req : WalletRequest)
      (route : Route) (hpast : Conforms operatorId defaultOperatorId past s ledger)
      (hroute : routeOf req.endpoint = some route)
      (haccepts : Accepts ledger req (serve defaultOperatorId (bodyOf R req) s route).2 ledger') :
      Conforms operatorId defaultOperatorId (req :: past)
        (serve defaultOperatorId (bodyOf R req) s route).1 ledger'

/-- A request books a movement. -/
def Posts (req : WalletRequest) : Prop := req.endpoint = .bet ∨ req.endpoint = .win

/-- **A request fits to those before it.** -/
structure Fits (past : List WalletRequest) (req : WalletRequest) : Prop where
  served : req.endpoint ≠ .endRound
  /-- A request identifier stands for one request. -/
  request : ∀ r ∈ past, r.requestUuid = req.requestUuid → r.endpoint = req.endpoint ∧
    r.transactionUuid = req.transactionUuid ∧
      r.referenceTransactionUuid = req.referenceTransactionUuid
  /-- A rollback identifier stands for one rollback. -/
  rollback : ∀ r ∈ past, r.endpoint = .rollback → req.endpoint = .rollback →
    r.transactionUuid = req.transactionUuid →
      r.referenceTransactionUuid = req.referenceTransactionUuid
  /-- A rollback names the player of its transaction. -/
  player : req.endpoint = .rollback → ∀ r ∈ past, Posts r →
    r.transactionUuid = req.referenceTransactionUuid →
      r.operatorId = req.operatorId ∧ r.playerRef = req.playerRef

/-- **Consistent requests**, the latest one first. -/
def Consistent : List WalletRequest → Prop
  | [] => True
  | req :: past => Consistent past ∧ Fits past req

/-- **The ledger of the mock operator is that of the contract.** -/
structure Refines (s : WalletStore) (ledger : Ledger) : Prop where
  entries : ∀ e ∈ ledger, ∃ operatorId, s.ledger.lookup (R.uuid e.transactionUuid) =
    some ⟨e.kind, keyOf (R.operator operatorId) e.playerRef.text.toList, e.amountMicro, e.rolledBack⟩
  booked : ∀ u entry, s.ledger.lookup (R.uuid u) = some entry → ledger.booked u = true

/-- What a request asks for is done. -/
def Done (ledger : Ledger) (req : WalletRequest) : Prop :=
  (Posts req → ∀ u ∈ req.transactionUuid, ledger.booked u = true) ∧
    (req.endpoint = .rollback → ∀ u ∈ req.referenceTransactionUuid, ledger.reversed u = true)

/-- **What the store remembers**: where its entries come from, which requests it answered with a success,
and which rollbacks it carried out. -/
structure Remembers (past : List WalletRequest) (s : WalletStore) (ledger : Ledger) : Prop where
  posted : ∀ u entry, s.ledger.lookup (R.uuid u) = some entry → ∃ r ∈ past, Posts r ∧
    r.transactionUuid = some u ∧ entry.key = walletKey R r
  processed : ∀ q balance, s.processed.lookup (R.uuid q) = some balance →
    ∃ r ∈ past, r.requestUuid = q ∧ Done ledger r
  rolledBack : ∀ t, R.uuid t ∈ s.rollbackTxs → ∃ r ∈ past, r.endpoint = .rollback ∧
    r.transactionUuid = some t ∧ Done ledger r

/-- The transaction that a request is about: the one that it books, or the one that it reverses. -/
def subject (req : WalletRequest) : Option Uuid :=
  if req.endpoint = .rollback then req.referenceTransactionUuid else req.transactionUuid

variable {R} {past : List WalletRequest} {s s' : WalletStore} {ledger ledger' : Ledger}
variable {req req' : WalletRequest} {res : WalletResponseWire} {u : Uuid} {entry : LedgerEntry}

/-! ## What is in the ledger -/

/-- An entry of the mock operator's ledger is one of the contract's. -/
theorem Refines.of_lookup (h : Refines R s ledger) (hentry : s.ledger.lookup (R.uuid u) = some entry) :
    ∃ e ∈ ledger, e.transactionUuid = u ∧ e.kind = entry.kind ∧ e.amountMicro = entry.amountMicro ∧
      e.rolledBack = entry.rolledBack := by
  obtain ⟨e, he, rfl⟩ := List.mem_map.mp (Ledger.booked_iff.mp (h.booked u entry hentry))
  obtain ⟨operatorId, hlookup⟩ := h.entries e he
  obtain rfl := Option.some.inj (hlookup.symm.trans hentry)
  exact ⟨e, he, rfl, rfl, rfl, rfl⟩

/-- What the mock operator has not booked is not booked. -/
theorem Refines.not_booked (h : Refines R s ledger) (hnone : s.ledger.lookup (R.uuid u) = none) :
    ledger.booked u = false := by
  rw [Ledger.booked_eq_false_iff]
  intro hmem
  obtain ⟨e, he, rfl⟩ := List.mem_map.mp hmem
  obtain ⟨operatorId, hlookup⟩ := h.entries e he
  rw [hnone] at hlookup
  cases hlookup

/-- What the mock operator has reversed is reversed. -/
theorem Refines.reversed (h : Refines R s ledger) (hentry : s.ledger.lookup (R.uuid u) = some entry)
    (hback : entry.rolledBack = true) : ledger.reversed u = true := by
  obtain ⟨e, he, hu, -, -, hrolled⟩ := h.of_lookup hentry
  exact Ledger.reversed_iff.mpr ⟨e, he, hu, hrolled.trans hback⟩

/-- What is reversed is booked. -/
theorem booked_of_reversed (h : ledger.reversed u = true) : ledger.booked u = true := by
  obtain ⟨e, he, hu, -⟩ := Ledger.reversed_iff.mp h
  exact Ledger.booked_iff.mpr (List.mem_map.mpr ⟨e, he, hu⟩)

theorem Done.later (h : Done ledger req) (hb : Ledger.Booking ledger req' ledger') :
    Done ledger' req :=
  ⟨fun hp u hu => hb.booked (h.1 hp u hu), fun hr u hu => hb.reversed (h.2 hr u hu)⟩

theorem Refines.of_same (h : Refines R s ledger) (hledger : s'.ledger = s.ledger) :
    Refines R s' ledger :=
  ⟨fun e he => hledger ▸ h.entries e he, fun u entry hu => h.booked u entry (hledger ▸ hu)⟩

/-- **What is remembered is remembered after one more request**, which adds to the ledger. -/
theorem Remembers.later (h : Remembers R past s ledger) (hb : Ledger.Booking ledger req ledger')
    (hposted : ∀ u entry, s'.ledger.lookup (R.uuid u) = some entry →
      (∃ entry₀, s.ledger.lookup (R.uuid u) = some entry₀ ∧ entry₀.key = entry.key) ∨
        (Posts req ∧ req.transactionUuid = some u ∧ entry.key = walletKey R req))
    (hprocessed : s'.processed = s.processed)
    (hrollbacks : ∀ t, R.uuid t ∈ s'.rollbackTxs → R.uuid t ∈ s.rollbackTxs ∨
      (req.endpoint = .rollback ∧ req.transactionUuid = some t ∧ Done ledger' req)) :
    Remembers R (req :: past) s' ledger' where
  posted u entry he := by
    rcases hposted u entry he with ⟨entry₀, he₀, hkey⟩ | ⟨hp, hu, hkey⟩
    · obtain ⟨r, hr, hposts, htx, hkey₀⟩ := h.posted u entry₀ he₀
      exact ⟨r, List.mem_cons_of_mem _ hr, hposts, htx, hkey.symm.trans hkey₀⟩
    · exact ⟨req, List.mem_cons_self, hp, hu, hkey⟩
  processed q balance hq := by
    obtain ⟨r, hr, heq, hdone⟩ := h.processed q balance (hprocessed ▸ hq)
    exact ⟨r, List.mem_cons_of_mem _ hr, heq, hdone.later hb⟩
  rolledBack t ht := by
    rcases hrollbacks t ht with ht | ⟨he, htx, hdone⟩
    · obtain ⟨r, hr, he, htx, hdone⟩ := h.rolledBack t ht
      exact ⟨r, List.mem_cons_of_mem _ hr, he, htx, hdone.later hb⟩
    · exact ⟨req, List.mem_cons_self, he, htx, hdone⟩

/-- What is remembered is remembered after a request that changes nothing of it. -/
theorem Remembers.of_same (h : Remembers R past s ledger) (hledger : s'.ledger = s.ledger)
    (hprocessed : s'.processed = s.processed) (hrollbacks : s'.rollbackTxs = s.rollbackTxs) :
    Remembers R (req :: past) s' ledger :=
  h.later .keep (fun _ entry he => .inl ⟨entry, hledger ▸ he, rfl⟩) hprocessed
    fun _ ht => .inl (hrollbacks ▸ ht)

/-! ## Answers that the contract allows -/

/-- **An answer after which the ledger stays**: a success when what is asked for is done, a refusal when
the transaction is not booked. -/
theorem accepts_keep (balance : Option Int) (hbalance : balance.map microText = res.balanceMicro)
    (hsuccess : isSuccessOrDuplicate res.status = true → Done ledger req)
    (hrefused : isRejectStatus res.status = true ∨ res.status = .transactionNotFound →
      ∀ u ∈ subject req, ledger.booked u = false) : Accepts ledger req res ledger := by
  refine ⟨⟨false, res.status, balance⟩, ?_, rfl, hbalance⟩
  have hpost : ∀ kind u, Posts req → req.transactionUuid = some u →
      ledger.post kind u req ⟨false, res.status, balance⟩ = some ledger := by
    intro kind u hp hu
    have hnot : req.endpoint ≠ .rollback := by
      rcases hp with he | he <;> rw [he] <;> decide
    rw [Ledger.post]
    by_cases hb : ledger.booked u = true
    · rw [if_pos hb, if_neg]
      intro hr
      have hfalse := hrefused hr u (by rw [subject, if_neg hnot]; exact hu)
      rw [hb] at hfalse
      cases hfalse
    · rw [if_neg hb, if_neg (by simp), if_neg]
      exact fun hs => hb ((hsuccess hs).1 hp u hu)
  rw [Ledger.process]
  split
  · rename_i u he hu
    exact hpost .bet u (.inl he) hu
  · rename_i u he hu
    exact hpost .win u (.inr he) hu
  · rename_i t he ht
    split
    · rename_i reference href
      have hsubject : reference ∈ subject req := by
        rw [subject, if_pos he]
        exact href
      rw [Ledger.rollback]
      by_cases hb : ledger.booked reference = true
      · rw [if_pos hb, if_neg, if_neg (by simp), if_neg]
        · rintro ⟨hs, hnot⟩
          exact hnot ((hsuccess hs).2 he reference href)
        · intro hn
          have hfalse := hrefused (.inr hn) reference hsubject
          rw [hb] at hfalse
          cases hfalse
      · rw [if_neg hb, if_neg]
        exact fun hs => hb (booked_of_reversed ((hsuccess hs).2 he reference href))
    · rfl
  · rfl

/-- **A movement is booked.** -/
theorem accepts_post {balance : Option Int} {kind : TxKind}
    (hbalance : balance.map microText = res.balanceMicro) (hok : res.status = .ok)
    (he : req.endpoint = kind.endpoint) (hu : req.transactionUuid = some u)
    (hnew : ledger.booked u = false) :
    Accepts ledger req res (ledger ++ [Ledger.entry kind u req]) := by
  refine ⟨⟨true, res.status, balance⟩, ?_, rfl, hbalance⟩
  have hpost : ledger.post kind u req ⟨true, res.status, balance⟩ =
      some (ledger ++ [Ledger.entry kind u req]) := by
    simp only [Ledger.post, hnew, hok, isRejectStatus]
    rfl
  cases kind with
  | bet => simp only [Ledger.process, he, hu, TxKind.endpoint, hpost]
  | win => simp only [Ledger.process, he, hu, TxKind.endpoint, hpost]

/-- **A movement is reversed.** -/
theorem accepts_reverse {balance : Option Int} {t : Uuid}
    (hbalance : balance.map microText = res.balanceMicro) (hok : res.status = .ok)
    (he : req.endpoint = .rollback) (ht : req.transactionUuid = some t)
    (hu : req.referenceTransactionUuid = some u) (hold : ledger.booked u = true) :
    Accepts ledger req res (ledger.reverse u) := by
  refine ⟨⟨true, res.status, balance⟩, ?_, rfl, hbalance⟩
  simp only [Ledger.process, he, ht, hu, Ledger.rollback, hold, hok]
  rfl

/-! ## One request -/

/-- **What has to be shown of one request**: its answer is allowed, and leads to a ledger that the store
refines, with what it remembers. -/
def Served (R : Rendering) (past : List WalletRequest) (req : WalletRequest) (ledger : Ledger)
    (x : WalletStore × WalletResponseWire) : Prop :=
  ∃ ledger', Accepts ledger req x.2 ledger' ∧ Refines R x.1 ledger' ∧
    Remembers R (req :: past) x.1 ledger'

/-- **What has to be shown of the movement** that a request asks for: so does its outcome, and a success
means that it is done. -/
def Ran (R : Rendering) (past : List WalletRequest) (req : WalletRequest) (ledger : Ledger)
    (x : WalletStore × TxResult) : Prop :=
  ∃ ledger', (∀ res : WalletResponseWire, res.status = x.2.status →
      (some x.2.balanceMicro).map microText = res.balanceMicro → Accepts ledger req res ledger') ∧
    Refines R x.1 ledger' ∧ Remembers R (req :: past) x.1 ledger' ∧
      (x.2.status = .ok → Done ledger' req)

/-- A request that is refused for its syntax. -/
theorem served_error (hs : Refines R s ledger) (hm : Remembers R past s ledger)
    (hbalance : res.balanceMicro = none) (hstatus : res.status = .wrongSyntax ∨ res.status = .wrongTypes) :
    Served R past req ledger (s, res) := by
  refine ⟨ledger, ?_, hs, hm.of_same rfl rfl rfl⟩
  have hsilent : isSuccessOrDuplicate res.status = false ∧
      ¬ (isRejectStatus res.status = true ∨ res.status = .transactionNotFound) := by
    rcases hstatus with h | h <;> rw [h] <;> decide
  exact accepts_keep none hbalance.symm (fun h => nomatch hsilent.1.symm.trans h)
    fun h => absurd h hsilent.2

/-- **A movement that is repeated, refused or made.** -/
theorem served_movement (hs : Refines R s ledger) (hm : Remembers R past s ledger)
    (hfits : Fits past req) {currency : Text} {run : Option (WalletStore × TxResult)}
    (hrun : ∀ x ∈ run, Ran R past req ledger x) :
    Served R past req ledger
      (movement (bodyOf R req) s (R.uuid req.requestUuid) currency run) := by
  unfold movement
  split
  · -- the request was answered before, and what it asks for is done
    rename_i prev hprev
    obtain ⟨r, hr, hq, hposts, hrolled⟩ := hm.processed _ _ hprev
    obtain ⟨he, htx, href⟩ := hfits.request r hr hq
    have hdone : Done ledger req := by
      refine ⟨fun hp => ?_, fun hback => ?_⟩
      · rw [← htx]
        exact hposts (by rwa [Posts, he])
      · rw [← href]
        exact hrolled (he.trans hback)
    exact ⟨ledger, accepts_keep (some prev) rfl (fun _ => hdone) (by simp [isRejectStatus]), hs,
      hm.of_same rfl rfl rfl⟩
  split
  · exact served_error hs hm rfl (.inr rfl)
  · rename_i s' result
    obtain ⟨ledger', haccepts, hs', hm', hdone⟩ := hrun _ rfl
    refine ⟨ledger', haccepts _ rfl rfl, ?_, ?_⟩
    · dsimp only
      split
      · exact hs'.of_same rfl
      · exact hs'
    · dsimp only
      split
      · rename_i hok
        refine ⟨hm'.posted, fun q balance hq => ?_, hm'.rolledBack⟩
        rw [WalletStore.rememberRequest, Entries.lookup_insert_eq] at hq
        split at hq
        · exact ⟨req, List.mem_cons_self, (R.uuid_injective ‹_›).symm, hdone hok⟩
        · exact hm'.processed q balance hq
      · exact hm'

/-- An outcome after which the ledger stays. -/
theorem ran_keep (hs : Refines R s ledger) (hm : Remembers R past s ledger) {result : TxResult}
    (hledger : s'.ledger = s.ledger) (hprocessed : s'.processed = s.processed)
    (hrollbacks : s'.rollbackTxs = s.rollbackTxs)
    (hsuccess : isSuccessOrDuplicate result.status = true → Done ledger req)
    (hrefused : isRejectStatus result.status = true ∨ result.status = .transactionNotFound →
      ∀ u ∈ subject req, ledger.booked u = false) : Ran R past req ledger (s', result) := by
  refine ⟨ledger, fun res hstatus hbalance => ?_, hs.of_same hledger,
    hm.of_same hledger hprocessed hrollbacks, fun hok => hsuccess ?_⟩
  · exact accepts_keep _ hbalance (fun h => hsuccess (hstatus ▸ h)) fun h => hrefused (hstatus ▸ h)
  · show isSuccessOrDuplicate result.status = true
    rw [show result.status = .ok from hok]
    rfl

/-- **A bet or a win.** -/
theorem ran_post (hs : Refines R s ledger) (hm : Remembers R past s ledger) {kind : TxKind}
    (he : req.endpoint = kind.endpoint) (hu : req.transactionUuid = some u) {amount : Int}
    (hamount : req.amountMicro.getD 0 = amount) {refusal : Int → Option RsStatus}
    (hrefusal : ∀ balance status, refusal balance = some status →
      isSuccessOrDuplicate status = false) :
    Ran R past req ledger (s.post kind (walletKey R req) (R.uuid u) amount refusal) := by
  have hposts : Posts req := by
    cases kind with
    | bet => exact .inl he
    | win => exact .inr he
  have hnot : req.endpoint ≠ .rollback := by
    rcases hposts with he | he <;> rw [he] <;> decide
  have hdone : ∀ {ledger : Ledger}, ledger.booked u = true → Done ledger req := fun hb =>
    ⟨fun _ u' hu' => Option.some.inj (hu.symm.trans hu') ▸ hb, fun hback => absurd hback hnot⟩
  have hkept : ∀ {result : TxResult}, (isSuccessOrDuplicate result.status = true → Done ledger req) →
      (isRejectStatus result.status = true ∨ result.status = .transactionNotFound →
        ∀ u ∈ subject req, ledger.booked u = false) →
          Ran R past req ledger (s.getOrInit (walletKey R req), result) :=
    ran_keep hs hm (s.ledger_getOrInit _) (s.processed_getOrInit _) (s.rollbackTxs_getOrInit _)
  rw [WalletStore.post]
  dsimp only
  split
  · rename_i existing hexisting
    have hb := hs.booked u existing hexisting
    split
    · exact hkept (fun _ => hdone hb) (by simp [isRejectStatus])
    · exact hkept (fun _ => hdone hb) (by simp [isRejectStatus])
  · rename_i hnone
    have hfree := hs.not_booked hnone
    split
    · rename_i status hstatus
      refine hkept (fun h => absurd ((hrefusal _ _ hstatus).symm.trans h) Bool.false_ne_true)
        fun _ u' hu' => ?_
      rw [subject, if_neg hnot] at hu'
      exact Option.some.inj (hu.symm.trans hu') ▸ hfree
    · -- the movement is booked
      have hbooking : Ledger.Booking ledger req (ledger ++ [Ledger.entry kind u req]) :=
        .post kind u he hu hfree
      have hbooked : Ledger.booked (ledger ++ [Ledger.entry kind u req]) u = true := by
        rw [Ledger.booked_iff, Ledger.names_concat]
        exact List.mem_append_right _ (List.mem_singleton.mpr rfl)
      refine ⟨_, fun res hstatus hbalance => accepts_post hbalance hstatus he hu hfree, ⟨?_, ?_⟩, ?_,
        fun _ => hdone hbooked⟩
      · intro e hmem
        rw [WalletStore.setEntry, Entries.lookup_insert_eq]
        rcases List.mem_append.mp hmem with hmem | hmem
        · rw [if_neg]
          · exact hs.entries e hmem
          · intro heq
            obtain ⟨operatorId, hlookup⟩ := hs.entries e hmem
            rw [heq, hnone] at hlookup
            cases hlookup
        · obtain rfl := List.mem_singleton.mp hmem
          subst hamount
          exact ⟨req.operatorId, if_pos rfl⟩
      · intro u' entry hentry
        rw [WalletStore.setEntry, Entries.lookup_insert_eq] at hentry
        split at hentry
        · exact R.uuid_injective ‹_› ▸ hbooked
        · exact hbooking.booked (hs.booked u' entry hentry)
      · refine hm.later hbooking (fun u' entry hentry => ?_) rfl fun _ ht => .inl ht
        rw [WalletStore.setEntry, Entries.lookup_insert_eq] at hentry
        split at hentry
        · obtain rfl := Option.some.inj hentry
          exact .inr ⟨hposts, R.uuid_injective ‹_› ▸ hu, rfl⟩
        · exact .inl ⟨entry, hentry, rfl⟩

/-- **A rollback.** -/
theorem ran_rollback (hs : Refines R s ledger) (hm : Remembers R past s ledger) (hfits : Fits past req)
    {t : Uuid} (he : req.endpoint = .rollback) (ht : req.transactionUuid = some t)
    (hu : req.referenceTransactionUuid = some u) :
    Ran R past req ledger
      (s.rollback (R.operator req.operatorId) (playerText req) (R.uuid t) (R.uuid u)) := by
  have hnot : ¬ Posts req := by
    rintro (h | h) <;> exact nomatch he.symm.trans h
  have hdone : ∀ {ledger : Ledger}, ledger.reversed u = true → Done ledger req := fun hback =>
    ⟨fun hp => absurd hp hnot, fun _ u' hu' => Option.some.inj (hu.symm.trans hu') ▸ hback⟩
  have hkept : ∀ {result : TxResult}, (isSuccessOrDuplicate result.status = true → Done ledger req) →
      (isRejectStatus result.status = true ∨ result.status = .transactionNotFound →
        ∀ u ∈ subject req, ledger.booked u = false) →
          Ran R past req ledger (s.getOrInit (walletKey R req), result) :=
    ran_keep hs hm (s.ledger_getOrInit _) (s.processed_getOrInit _) (s.rollbackTxs_getOrInit _)
  rw [WalletStore.rollback]
  dsimp only
  split
  · -- the rollback was carried out before
    rename_i hseen
    obtain ⟨r, hr, hend, htx, hdone'⟩ := hm.rolledBack t hseen
    have href := hfits.rollback r hr hend he (htx.trans ht.symm)
    exact hkept (fun _ => hdone (hdone'.2 hend u (href.trans hu))) (by simp [isRejectStatus])
  split
  · rename_i hnone
    refine hkept (fun h => by cases h) fun _ u' hu' => ?_
    rw [subject, if_pos he] at hu'
    exact Option.some.inj (hu.symm.trans hu') ▸ hs.not_booked hnone
  rename_i original horiginal
  -- the transaction is the player's own
  have hkey : original.key = walletKey R req := by
    obtain ⟨r, hr, hposts, htx, hkey⟩ := hm.posted u original horiginal
    obtain ⟨hop, hplayer⟩ := hfits.player he r hr hposts (htx.trans hu.symm)
    rw [hkey, walletKey, walletKey, playerText, playerText, hop, hplayer]
  have hbooked := hs.booked u original horiginal
  split
  · exact absurd hkey ‹_›
  split
  · rename_i hback
    have hreversed := hs.reversed horiginal hback
    refine ⟨ledger, fun res hstatus hbalance => ?_, hs.of_same (s.ledger_getOrInit _), ?_,
      fun _ => hdone hreversed⟩
    · refine accepts_keep _ hbalance (fun _ => hdone hreversed) fun h => ?_
      rw [hstatus] at h
      simp [isRejectStatus] at h
    · refine hm.later .keep (fun _ entry hentry => .inl ⟨entry, ?_, rfl⟩) (s.processed_getOrInit _)
        fun t' ht' => ?_
      · rwa [← s.ledger_getOrInit (keyOf (R.operator req.operatorId) (playerText req))]
      · rcases Finset.mem_insert.mp ht' with heq | ht'
        · exact .inr ⟨he, R.uuid_injective heq ▸ ht, hdone hreversed⟩
        · exact .inl ht'
  · -- the movement is reversed
    have hbooking : Ledger.Booking ledger req (ledger.reverse u) := .reverse u he hu
    have hreversed := Ledger.reversed_reverse hbooked
    refine ⟨_, fun res hstatus hbalance => accepts_reverse hbalance hstatus he ht hu hbooked, ⟨?_, ?_⟩,
      ?_, fun _ => hdone hreversed⟩
    · intro e hmem
      obtain ⟨e₀, he₀, rfl⟩ := Ledger.mem_reverse.mp hmem
      obtain ⟨operatorId, hlookup⟩ := hs.entries e₀ he₀
      refine ⟨operatorId, ?_⟩
      show (s.ledger.insert (R.uuid u) { original with rolledBack := true }).lookup _ = _
      rw [Entries.lookup_insert_eq]
      by_cases hx : e₀.transactionUuid = u
      · rw [if_pos hx, if_pos (congrArg R.uuid hx)]
        rw [hx, horiginal] at hlookup
        rw [Option.some.inj hlookup]
      · rw [if_neg hx, if_neg fun heq => hx (R.uuid_injective heq)]
        exact hlookup
    · intro u' entry hentry
      change (s.ledger.insert (R.uuid u) { original with rolledBack := true }).lookup _ = _ at hentry
      rw [Entries.lookup_insert_eq] at hentry
      split at hentry
      · rename_i heq
        rw [R.uuid_injective heq]
        exact hbooking.booked hbooked
      · exact hbooking.booked (hs.booked u' entry hentry)
    · refine hm.later hbooking (fun u' entry hentry => .inl ?_) rfl fun t' ht' => ?_
      · change (s.ledger.insert (R.uuid u) { original with rolledBack := true }).lookup _ = _ at hentry
        rw [Entries.lookup_insert_eq] at hentry
        split at hentry
        · rename_i heq
          obtain rfl := Option.some.inj hentry
          exact ⟨original, heq ▸ horiginal, rfl⟩
        · exact ⟨entry, hentry, rfl⟩
      · rcases Finset.mem_insert.mp ht' with heq | ht'
        · exact .inr ⟨he, R.uuid_injective heq ▸ ht, hdone hreversed⟩
        · exact .inl ht'

/-! ## Runs -/

/-- The text of an amount is read as the amount. -/
theorem ofText_microText (n : Int) : BigInt.ofText (microText n) = some n := by
  cases n with
  | ofNat n =>
      have htext : microText (Int.ofNat n) = Nat.toDigits 10 n := toList_toString_nat n
      rw [htext]
      exact BigInt.ofText_toDigits n
  | negSucc n =>
      rw [microText, toList_toString_negSucc, BigInt.ofText_neg]
      rfl

/-- A field that is there. -/
theorem eq_some_of_truthy {field : Option Text} {t : Text} (h : truthy field = some t) : field = some t :=
  (Option.filter_eq_some_iff.mp h).1

/-- The text of an identifier that a body has. -/
theorem eq_some_of_truthy_map {α : Type} {f : α → Text} {field : Option α} {t : Text}
    (h : truthy (field.map f) = some t) : ∃ a, field = some a ∧ f a = t :=
  Option.map_eq_some_iff.mp (eq_some_of_truthy h)

/-- A request with one more field that has to be there. -/
theorem served_field (hs : Refines R s ledger) (hm : Remembers R past s ledger) (field : Option Text)
    (f : Text → Option (WalletStore × WalletResponseWire))
    (hf : ∀ t, truthy field = some t →
      Served R past req ledger ((f t).getD (s, missingFields (bodyOf R req)))) :
    Served R past req ledger (((truthy field).bind f).getD (s, missingFields (bodyOf R req))) := by
  cases h : truthy field with
  | none => exact served_error hs hm rfl (.inl rfl)
  | some t => exact hf t h

/-- **One request is served** as the contract allows. -/
theorem served_request (hs : Refines R s ledger) (hm : Remembers R past s ledger)
    (hfits : Fits past req) {route : Route} (hroute : routeOf req.endpoint = some route)
    (defaultOperatorId : Text) :
    Served R past req ledger (serve defaultOperatorId (bodyOf R req) s route) := by
  have hfield : ∀ (field : Option Text) (f : Text → Option (WalletStore × WalletResponseWire)),
      (∀ t, truthy field = some t →
        Served R past req ledger ((f t).getD (s, missingFields (bodyOf R req)))) →
      Served R past req ledger (((truthy field).bind f).getD (s, missingFields (bodyOf R req))) :=
    served_field hs hm
  unfold serve
  cases he : req.endpoint with
  | endRound => exact absurd he hfits.served
  | balance =>
      rw [he] at hroute
      obtain rfl := Option.some.inj hroute
      refine hfield _ _ fun requestUuid hrequest => hfield _ _ fun player hplayer =>
        hfield _ _ fun currency hcurrency => ?_
      obtain rfl := Option.some.inj (eq_some_of_truthy hplayer)
      exact ⟨ledger, accepts_keep (some _) rfl (fun _ => ⟨fun hp => by simp [Posts, he] at hp,
        fun hback => nomatch he.symm.trans hback⟩) (by simp [isRejectStatus]),
        hs.of_same (s.ledger_getOrInit _), hm.of_same (s.ledger_getOrInit _) (s.processed_getOrInit _)
          (s.rollbackTxs_getOrInit _)⟩
  | bet =>
      rw [he] at hroute
      obtain rfl := Option.some.inj hroute
      refine hfield _ _ fun requestUuid hrequest => hfield _ _ fun tx htx =>
        hfield _ _ fun player hplayer => hfield _ _ fun currency hcurrency =>
          hfield _ _ fun amountText hamount => ?_
      obtain rfl := Option.some.inj (eq_some_of_truthy hrequest)
      obtain ⟨u, hu, rfl⟩ := eq_some_of_truthy_map htx
      obtain rfl := Option.some.inj (eq_some_of_truthy hplayer)
      obtain ⟨amount, hmicro, rfl⟩ := eq_some_of_truthy_map hamount
      refine served_movement hs hm hfits fun x hx => ?_
      rw [ofText_microText] at hx
      obtain rfl := Option.some.inj hx
      refine ran_post hs hm he hu (by rw [hmicro]; rfl) fun balance status h => ?_
      split at h
      · exact Option.some.inj h ▸ rfl
      split at h
      · exact Option.some.inj h ▸ rfl
      · cases h
  | win =>
      rw [he] at hroute
      obtain rfl := Option.some.inj hroute
      refine hfield _ _ fun requestUuid hrequest => hfield _ _ fun tx htx => hfield _ _ fun _ _ =>
        hfield _ _ fun player hplayer => hfield _ _ fun currency hcurrency =>
          hfield _ _ fun amountText hamount => ?_
      obtain rfl := Option.some.inj (eq_some_of_truthy hrequest)
      obtain ⟨u, hu, rfl⟩ := eq_some_of_truthy_map htx
      obtain rfl := Option.some.inj (eq_some_of_truthy hplayer)
      obtain ⟨amount, hmicro, rfl⟩ := eq_some_of_truthy_map hamount
      refine served_movement hs hm hfits fun x hx => ?_
      rw [ofText_microText] at hx
      obtain rfl := Option.some.inj hx
      refine ran_post hs hm he hu (by rw [hmicro]; rfl) fun balance status h => ?_
      split at h
      · exact Option.some.inj h ▸ rfl
      · cases h
  | rollback =>
      rw [he] at hroute
      obtain rfl := Option.some.inj hroute
      refine hfield _ _ fun requestUuid hrequest => hfield _ _ fun tx htx =>
        hfield _ _ fun reference href => hfield _ _ fun player hplayer =>
          hfield _ _ fun currency hcurrency => ?_
      obtain rfl := Option.some.inj (eq_some_of_truthy hrequest)
      obtain ⟨t, ht, rfl⟩ := eq_some_of_truthy_map htx
      obtain ⟨u, hu, rfl⟩ := eq_some_of_truthy_map href
      obtain rfl := Option.some.inj (eq_some_of_truthy hplayer)
      show Served R past req ledger (movement (bodyOf R req) s _ currency (some (s.rollback _ _ _ _)))
      refine served_movement hs hm hfits fun x hx => ?_
      obtain rfl := Option.some.inj hx
      exact ran_rollback hs hm hfits he ht hu

/-- **Along a run of consistent requests** the store refines a ledger of the contract. -/
theorem conforms_refines (operatorId defaultOperatorId : Text) :
    ∀ reqs : List WalletRequest, Consistent reqs →
      ∃ s ledger, Conforms R operatorId defaultOperatorId reqs s ledger ∧ Refines R s ledger ∧
        Remembers R reqs s ledger
  | [], _ => ⟨_, [], .start, ⟨fun _ h => (nomatch h), fun _ _ h => (nomatch h)⟩,
      ⟨fun _ _ h => (nomatch h), fun _ _ h => (nomatch h), fun _ h => absurd h (Finset.notMem_empty _)⟩⟩
  | req :: past, h => by
      obtain ⟨s, ledger, hconforms, hs, hm⟩ := conforms_refines operatorId defaultOperatorId past h.1
      obtain ⟨route, hroute⟩ : ∃ route, routeOf req.endpoint = some route := by
        have hserved := h.2.served
        cases he : req.endpoint with
        | endRound => exact absurd he hserved
        | balance | bet | win | rollback => exact ⟨_, rfl⟩
      obtain ⟨ledger', haccepts, hs', hm'⟩ := served_request hs hm h.2 hroute defaultOperatorId
      exact ⟨_, ledger', .step req route hconforms hroute haccepts, hs', hm'⟩

/-- **The mock operator keeps to the wallet contract.** In every run of consistent requests, every answer
is one that the contract allows, and the bets and wins that are booked and reversed are those of the
contract's ledger, with their amounts. -/
theorem mock_conforms (R : Rendering) (operatorId defaultOperatorId : Text) (reqs : List WalletRequest)
    (h : Consistent reqs) : ∃ s ledger, Conforms R operatorId defaultOperatorId reqs s ledger ∧
      Refines R s ledger := by
  obtain ⟨s, ledger, hconforms, hs, -⟩ := conforms_refines operatorId defaultOperatorId reqs h
  exact ⟨s, ledger, hconforms, hs⟩

/-! ## A run -/

instance decidablePosts (req : WalletRequest) : Decidable (Posts req) :=
  inferInstanceAs (Decidable (_ ∨ _))

instance decidableFits (past : List WalletRequest) (req : WalletRequest) : Decidable (Fits past req) :=
  decidable_of_iff
    (req.endpoint ≠ .endRound ∧
      (∀ r ∈ past, r.requestUuid = req.requestUuid → r.endpoint = req.endpoint ∧
        r.transactionUuid = req.transactionUuid ∧
          r.referenceTransactionUuid = req.referenceTransactionUuid) ∧
      (∀ r ∈ past, r.endpoint = .rollback → req.endpoint = .rollback →
        r.transactionUuid = req.transactionUuid →
          r.referenceTransactionUuid = req.referenceTransactionUuid) ∧
      (req.endpoint = .rollback → ∀ r ∈ past, Posts r →
        r.transactionUuid = req.referenceTransactionUuid →
          r.operatorId = req.operatorId ∧ r.playerRef = req.playerRef))
    ⟨fun ⟨h₁, h₂, h₃, h₄⟩ => ⟨h₁, h₂, h₃, h₄⟩, fun h => ⟨h.served, h.request, h.rollback, h.player⟩⟩

instance decidableConsistent : ∀ reqs : List WalletRequest, Decidable (Consistent reqs)
  | [] => .isTrue trivial
  | req :: past =>
      have := decidableConsistent past
      inferInstanceAs (Decidable (Consistent past ∧ Fits past req))

namespace Sample

/-- The number of a use. -/
def useNumber : UuidUse → Nat
  | .request => 0
  | .stake => 1
  | .credit => 2
  | .refund => 3

/-- An identifier is written as its three numbers. -/
def uuidText (u : Uuid) : Text :=
  Split.join '-' ([u.serial, u.owner, useNumber u.use].map (Nat.toDigits 10))

theorem uuidText_injective : Function.Injective uuidText := by
  have hparts : ∀ ns : List Nat, ∀ p ∈ ns.map (Nat.toDigits 10), p ≠ [] ∧ '-' ∉ p := by
    intro ns p hp
    obtain ⟨n, -, rfl⟩ := List.mem_map.mp hp
    exact ⟨Nat.toDigits_ne_nil, fun hmem => absurd (isDigit_of_mem_toDigits hmem) (by decide)⟩
  intro u v h
  have hlist := Split.join_injective (hparts _) (hparts _) h
  simp only [List.map_cons, List.map_nil, List.cons.injEq, and_true] at hlist
  obtain ⟨hserial, howner, huse⟩ := hlist
  obtain ⟨use, owner, serial⟩ := u
  obtain ⟨use', owner', serial'⟩ := v
  obtain rfl : serial = serial' := toDigits_inj hserial
  obtain rfl : owner = owner' := toDigits_inj howner
  have hnumber : useNumber use = useNumber use' := toDigits_inj huse
  revert hnumber
  cases use <;> cases use' <;> simp [useNumber]

/-- Numbers stand for themselves. -/
def rendering : Rendering where
  uuid := uuidText
  uuid_injective := uuidText_injective
  operator := Nat.toDigits 10
  currency := Nat.toDigits 10

/-- A request about ann. -/
def request (endpoint : WalletEndpoint) (n : Nat) (tx ref : Option Uuid) (amount : Option Int) :
    WalletRequest :=
  ⟨endpoint, ⟨.request, 0, n⟩, tx, ref, 0, .named "ann", 0, 0, amount, none⟩

/-- The transaction `n`. -/
def tx (n : Nat) : Uuid := ⟨.stake, 0, n⟩

/-- A bet that is sent twice, its win, and two rollbacks of the bet, the latest request first. -/
def requests : List WalletRequest :=
  [request .rollback 5 (some (tx 4)) (some (tx 1)) none,
    request .rollback 4 (some (tx 3)) (some (tx 1)) none,
    request .win 3 (some (tx 2)) (some (tx 1)) (some 20), request .bet 2 (some (tx 1)) none (some 10),
    request .bet 1 (some (tx 1)) none (some 10)]

end Sample

/-- The requests of a sample run are consistent, and their answers are allowed. -/
theorem mock_conforms_requests : Consistent Sample.requests ∧ ∃ s ledger,
    Conforms Sample.rendering [] [] Sample.requests s ledger ∧ Refines Sample.rendering s ledger := by
  have h : Consistent Sample.requests := by decide +kernel
  exact ⟨h, mock_conforms Sample.rendering [] [] Sample.requests h⟩

end YantraRgs.MockOperator
