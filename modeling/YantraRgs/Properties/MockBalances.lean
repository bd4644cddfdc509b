import Mathlib.Tactic.Linarith
import YantraRgs.MockOperator.Router

/-! # The books of the mock operator

Whatever requests the mock operator gets, in whatever order and with whatever identifiers: no balance
falls below zero, and every balance is what a wallet starts with and the movements that stand, except that
a win which is taken back after it was spent is taken back in part.

* **`WalletStore.net`** — what stands of a player's movements; `takenBack` — the wins that were reversed.
* **`Accounted`** — the balances agree with the ledger; **`Grown`** — what is booked stays booked.
* **`balances_kept`** — the property along every run of requests. -/

namespace YantraRgs.MockOperator

/-- What a movement counts for a player. -/
def LedgerEntry.share (f : LedgerEntry → Int) (key : Text) (entry : LedgerEntry) : Int :=
  if entry.key = key then f entry else 0

/-- What a win counts that was taken back. -/
def LedgerEntry.clawback (entry : LedgerEntry) : Int :=
  if entry.kind = .win ∧ entry.rolledBack then entry.amountMicro else 0

/-- What a player's entries count together. -/
def WalletStore.sum (s : WalletStore) (f : LedgerEntry → Int) (key : Text) : Int :=
  Entries.total (fun _ entry => entry.share f key) s.ledger

/-- **What stands of a player's movements.** -/
def WalletStore.net (s : WalletStore) (key : Text) : Int := s.sum LedgerEntry.net key

/-- **The wins of a player that were taken back.** -/
def WalletStore.takenBack (s : WalletStore) (key : Text) : Int := s.sum LedgerEntry.clawback key

/-- **The balances agree with the ledger**: no balance is negative, and each is at least what a wallet
starts with and what stands of the movements, and above it at most by the wins that were taken back. -/
structure Accounted (s : WalletStore) : Prop where
  nonneg : ∀ key, 0 ≤ s.balanceAt key
  amounts : ∀ uuid entry, s.ledger.lookup uuid = some entry → 0 ≤ entry.amountMicro
  least : ∀ key, SEED_BALANCE_MICRO + s.net key ≤ s.balanceAt key
  most : ∀ key, s.balanceAt key ≤ SEED_BALANCE_MICRO + s.net key + s.takenBack key

/-- **What is booked stays booked**, as the same movement, and what is reversed stays reversed. -/
def Grown (s s' : WalletStore) : Prop :=
  ∀ uuid entry, s.ledger.lookup uuid = some entry → ∃ entry', s'.ledger.lookup uuid = some entry' ∧
    entry'.kind = entry.kind ∧ entry'.key = entry.key ∧ entry'.amountMicro = entry.amountMicro ∧
      (entry.rolledBack = true → entry'.rolledBack = true)

variable {s s' s'' : WalletStore} {uuid key : Text} {entry : LedgerEntry}

/-- A new entry joins a sum. -/
theorem sum_booked (f : LedgerEntry → Int) (hnew : s.ledger.lookup uuid = none)
    (hledger : s'.ledger = s.ledger.insert uuid entry) (key : Text) :
    s'.sum f key = entry.share f key + s.sum f key := by
  rw [WalletStore.sum, hledger, Entries.total_insert_new _ hnew, WalletStore.sum]

/-- An entry that is reversed counts otherwise than before. -/
theorem sum_reversed (f : LedgerEntry → Int) {entry' : LedgerEntry}
    (hold : s.ledger.lookup uuid = some entry) (hledger : s'.ledger = s.ledger.insert uuid entry')
    (key : Text) : s'.sum f key = s.sum f key + (entry'.share f key - entry.share f key) := by
  rw [WalletStore.sum, hledger, Entries.total_insert_old _ hold, WalletStore.sum]

/-- The balances of a store that were not touched. -/
theorem Accounted.of_same (h : Accounted s) (hbalance : ∀ k, s'.balanceAt k = s.balanceAt k)
    (hledger : s'.ledger = s.ledger) : Accounted s' where
  nonneg key := hbalance key ▸ h.nonneg key
  amounts uuid entry hentry := h.amounts uuid entry (hledger ▸ hentry)
  least key := by
    have hle := h.least key
    rwa [hbalance, WalletStore.net, WalletStore.sum, hledger]
  most key := by
    have hle := h.most key
    rwa [hbalance, WalletStore.net, WalletStore.takenBack, WalletStore.sum, WalletStore.sum, hledger]

/-- **A movement is booked.** -/
theorem Accounted.booked (h : Accounted s) (hnew : s.ledger.lookup uuid = none)
    (hamount : 0 ≤ entry.amountMicro) (hopen : entry.rolledBack = false)
    (hcovered : 0 ≤ s.balanceAt entry.key → 0 ≤ s.balanceAt entry.key + entry.delta)
    (hbalance : ∀ k, s'.balanceAt k =
      if k = entry.key then s.balanceAt entry.key + entry.delta else s.balanceAt k)
    (hledger : s'.ledger = s.ledger.insert uuid entry) : Accounted s' := by
  have hnet : ∀ k, s'.net k = (if entry.key = k then entry.delta else 0) + s.net k := by
    intro k
    rw [WalletStore.net, sum_booked _ hnew hledger, LedgerEntry.share, LedgerEntry.net, hopen]
    rfl
  have hback : ∀ k, s'.takenBack k = s.takenBack k := by
    intro k
    rw [WalletStore.takenBack, sum_booked _ hnew hledger, LedgerEntry.share, LedgerEntry.clawback, hopen]
    simp [WalletStore.takenBack]
  refine ⟨fun k => ?_, fun u e he => ?_, fun k => ?_, fun k => ?_⟩
  · rw [hbalance]
    split
    · exact hcovered (h.nonneg entry.key)
    · exact h.nonneg k
  · rw [hledger, Entries.lookup_insert_eq] at he
    split at he
    · exact Option.some.inj he ▸ hamount
    · exact h.amounts u e he
  · have hle := h.least k
    rw [hbalance, hnet]
    by_cases hk : k = entry.key
    · subst hk
      rw [if_pos rfl, if_pos rfl]
      linarith
    · rw [if_neg hk, if_neg (Ne.symm hk)]
      linarith
  · have hle := h.most k
    rw [hbalance, hnet, hback]
    by_cases hk : k = entry.key
    · subst hk
      rw [if_pos rfl, if_pos rfl]
      linarith
    · rw [if_neg hk, if_neg (Ne.symm hk)]
      linarith

/-- What a reversal does to a balance that was at least `low` and at most `high`. -/
theorem reversedBalance_bounds {balance low high : Int} (hbalance : 0 ≤ balance) (hlow : low ≤ balance)
    (hhigh : balance ≤ high) (hamount : 0 ≤ entry.amountMicro) :
    0 ≤ reversedBalance balance entry ∧ low - entry.delta ≤ reversedBalance balance entry ∧
      reversedBalance balance entry ≤
        high - entry.delta + LedgerEntry.clawback { entry with rolledBack := true } := by
  obtain ⟨kind, key, amountMicro, rolledBack⟩ := entry
  change 0 ≤ amountMicro at hamount
  cases kind with
  | bet =>
      show 0 ≤ balance + amountMicro ∧ low - -amountMicro ≤ balance + amountMicro ∧
        balance + amountMicro ≤ high - -amountMicro + 0
      exact ⟨by omega, by omega, by omega⟩
  | win =>
      show 0 ≤ (if balance - amountMicro < 0 then 0 else balance - amountMicro) ∧
        low - amountMicro ≤ (if balance - amountMicro < 0 then 0 else balance - amountMicro) ∧
          (if balance - amountMicro < 0 then 0 else balance - amountMicro) ≤
            high - amountMicro + amountMicro
      split
      · exact ⟨le_refl _, by omega, by omega⟩
      · exact ⟨by omega, by omega, by omega⟩

/-- **A movement is reversed.** -/
theorem Accounted.reversed (h : Accounted s) (hold : s.ledger.lookup uuid = some entry)
    (hopen : entry.rolledBack = false)
    (hbalance : ∀ k, s'.balanceAt k =
      if k = entry.key then reversedBalance (s.balanceAt entry.key) entry else s.balanceAt k)
    (hledger : s'.ledger = s.ledger.insert uuid { entry with rolledBack := true }) : Accounted s' := by
  have hnet : ∀ k, s'.net k = s.net k + (if entry.key = k then -entry.delta else 0) := by
    intro k
    rw [WalletStore.net, sum_reversed _ hold hledger, WalletStore.net, LedgerEntry.share,
      LedgerEntry.share, LedgerEntry.net, LedgerEntry.net, hopen]
    dsimp only
    split <;> simp
  have hback : ∀ k, s'.takenBack k = s.takenBack k +
      (if entry.key = k then LedgerEntry.clawback { entry with rolledBack := true } else 0) := by
    intro k
    have hzero : entry.clawback = 0 := by simp [LedgerEntry.clawback, hopen]
    rw [WalletStore.takenBack, sum_reversed _ hold hledger, WalletStore.takenBack, LedgerEntry.share,
      LedgerEntry.share, hzero]
    dsimp only
    split <;> simp
  obtain ⟨hnonneg, hlow, hhigh⟩ := reversedBalance_bounds (h.nonneg entry.key) (h.least entry.key)
    (h.most entry.key) (h.amounts uuid entry hold)
  refine ⟨fun k => ?_, fun u e he => ?_, fun k => ?_, fun k => ?_⟩
  · rw [hbalance]
    split
    · exact hnonneg
    · exact h.nonneg k
  · rw [hledger, Entries.lookup_insert_eq] at he
    split at he
    · exact Option.some.inj he ▸ h.amounts uuid entry hold
    · exact h.amounts u e he
  · have hle := h.least k
    rw [hbalance, hnet]
    by_cases hk : k = entry.key
    · subst hk
      rw [if_pos rfl, if_pos rfl]
      linarith
    · rw [if_neg hk, if_neg (Ne.symm hk)]
      linarith
  · have hle := h.most k
    rw [hbalance, hnet, hback]
    by_cases hk : k = entry.key
    · subst hk
      rw [if_pos rfl, if_pos rfl, if_pos rfl]
      linarith
    · rw [if_neg hk, if_neg (Ne.symm hk), if_neg (Ne.symm hk)]
      linarith

/-- **A request keeps the books.** -/
theorem Accounted.changed (h : Accounted s) (hs : s.Changed s') : Accounted s' := by
  cases hs with
  | kept hbalance hledger => exact h.of_same hbalance hledger
  | booked uuid entry hnew hamount hopen hcovered hbalance hledger =>
      exact h.booked hnew hamount hopen hcovered hbalance hledger
  | reversed uuid original hold hopen hbalance hledger => exact h.reversed hold hopen hbalance hledger

/-- **A request keeps what is booked.** -/
theorem WalletStore.Changed.grown (hs : s.Changed s') : Grown s s' := by
  intro u e he
  cases hs with
  | kept hbalance hledger => exact ⟨e, hledger ▸ he, rfl, rfl, rfl, id⟩
  | booked uuid entry hnew hamount hopen hcovered hbalance hledger =>
      refine ⟨e, ?_, rfl, rfl, rfl, id⟩
      rw [hledger, Entries.lookup_insert_eq, if_neg, he]
      rintro rfl
      rw [hnew] at he
      cases he
  | reversed uuid original hold hopen hbalance hledger =>
      rw [hledger]
      by_cases hu : u = uuid
      · subst hu
        obtain rfl := Option.some.inj (hold.symm.trans he)
        exact ⟨{ original with rolledBack := true }, AList.lookup_insert _, rfl, rfl, rfl, fun _ => rfl⟩
      · exact ⟨e, (AList.lookup_insert_ne hu).trans he, rfl, rfl, rfl, id⟩

theorem Grown.trans (h : Grown s s') (h' : Grown s' s'') : Grown s s'' := by
  intro uuid entry hentry
  obtain ⟨entry', hentry', hkind, hkey, hamount, hback⟩ := h uuid entry hentry
  obtain ⟨entry'', hentry'', hkind', hkey', hamount', hback'⟩ := h' uuid entry' hentry'
  exact ⟨entry'', hentry'', hkind'.trans hkind, hkey'.trans hkey, hamount'.trans hamount,
    fun hb => hback' (hback hb)⟩

/-- The books of the store at the start. -/
theorem Accounted.init (operatorId : Text) : Accounted (WalletStore.init operatorId) := by
  have hbalance := WalletStore.balanceAt_init operatorId
  refine ⟨fun key => ?_, fun uuid entry h => ?_, fun key => ?_, fun key => ?_⟩
  · rw [hbalance]
    decide
  · cases h
  · rw [hbalance]
    exact le_refl _
  · rw [hbalance]
    exact le_refl _

/-- What one more run of requests does to the books, and to what is booked. -/
theorem after_kept (defaultOperatorId : Text) (requests : List (Route × Body)) (h : Accounted s) :
    Accounted (after defaultOperatorId s requests) ∧ Grown s (after defaultOperatorId s requests) := by
  induction requests generalizing s with
  | nil => exact ⟨h, fun uuid entry he => ⟨entry, he, rfl, rfl, rfl, id⟩⟩
  | cons r requests ih =>
      have hstep := changed_serve defaultOperatorId r.2 s r.1
      obtain ⟨haccounted, hgrown⟩ := ih (h.changed hstep)
      exact ⟨haccounted, hstep.grown.trans hgrown⟩

/-- **The mock operator keeps its books.** After any requests in any order, with any identifiers, no
balance is negative, and each balance is what a wallet starts with and what stands of the player's
movements, every transaction counted once, and at most the reversed wins more. Whatever further requests
come, every movement that is booked stays booked as it is, and what is reversed stays reversed. -/
theorem balances_kept (operatorId defaultOperatorId : Text) (requests further : List (Route × Body)) :
    Accounted (after defaultOperatorId (WalletStore.init operatorId) requests) ∧
      Grown (after defaultOperatorId (WalletStore.init operatorId) requests)
        (after defaultOperatorId (WalletStore.init operatorId) (requests ++ further)) := by
  have hbefore := (after_kept defaultOperatorId requests (.init operatorId)).1
  refine ⟨hbefore, ?_⟩
  rw [after, after, List.foldl_append]
  exact (after_kept defaultOperatorId further hbefore).2

end YantraRgs.MockOperator
