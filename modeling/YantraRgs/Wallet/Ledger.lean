import YantraRgs.Wallet.Operator

/-! # What one delivered request does to the ledger

* **`Ledger.Booking`** — the ledger stays, gets one entry, or has one entry reversed.
* **`Ledger.booking_of_process`** — a delivered request does one of these.
* **`Ledger.reversed_of_success`**, **`Ledger.not_booked_of_notFound`** — what the answer to a rollback
  says. -/

namespace YantraRgs

/-- The endpoint that books a movement. -/
def TxKind.endpoint : TxKind → WalletEndpoint
  | .bet => .bet
  | .win => .win

namespace Ledger

variable {ledger ledger' : Ledger} {req : WalletRequest} {v : Verdict} {u reference : Uuid}

/-- The entry that a request books. -/
def entry (kind : TxKind) (uuid : Uuid) (req : WalletRequest) : LedgerEntry :=
  ⟨kind, uuid, req.referenceTransactionUuid, req.playerRef, req.amountMicro.getD 0, false⟩

/-- The names of the booked transactions. -/
def names (ledger : Ledger) : List Uuid := ledger.map LedgerEntry.transactionUuid

/-- **How one delivered request changes the ledger.** -/
inductive Booking (ledger : Ledger) (req : WalletRequest) : Ledger → Prop
  | keep : Booking ledger req ledger
  | post (kind : TxKind) (uuid : Uuid) (he : req.endpoint = kind.endpoint)
      (hu : req.transactionUuid = some uuid) (hn : ledger.booked uuid = false) :
      Booking ledger req (ledger ++ [entry kind uuid req])
  | reverse (reference : Uuid) (he : req.endpoint = .rollback)
      (hr : req.referenceTransactionUuid = some reference) : Booking ledger req (ledger.reverse reference)

theorem booked_iff : ledger.booked u = true ↔ u ∈ ledger.names := by
  simp [booked, names]

theorem booked_eq_false_iff : ledger.booked u = false ↔ u ∉ ledger.names := by
  rw [← Bool.not_eq_true, booked_iff]

@[simp] theorem names_reverse : (ledger.reverse reference).names = ledger.names := by
  simp only [names, reverse, List.map_map]
  refine List.map_congr_left fun e _ => ?_
  simp only [Function.comp_apply]
  split <;> rfl

@[simp] theorem names_concat (e : LedgerEntry) :
    names (ledger ++ [e]) = ledger.names ++ [e.transactionUuid] := by
  simp [names]

theorem reversed_iff : ledger.reversed u = true ↔
    ∃ e ∈ ledger, e.transactionUuid = u ∧ e.rolledBack = true := by
  simp [reversed]

/-- An entry of a ledger in which a transaction was reversed. -/
theorem mem_reverse {e : LedgerEntry} : e ∈ ledger.reverse reference ↔
    ∃ e₀ ∈ ledger, e = if e₀.transactionUuid = reference then { e₀ with rolledBack := true } else e₀ := by
  simp only [reverse, List.mem_map, eq_comm]

/-- Reversing a booked transaction. -/
theorem reversed_reverse (h : ledger.booked reference = true) :
    (ledger.reverse reference).reversed reference = true := by
  obtain ⟨e, he, rfl⟩ := List.mem_map.mp (booked_iff.mp h)
  exact reversed_iff.mpr ⟨_, mem_reverse.mpr ⟨e, he, rfl⟩, by simp⟩

theorem booking_of_post (kind : TxKind) (he : req.endpoint = kind.endpoint)
    (hu : req.transactionUuid = some u) (h : ledger.post kind u req v = some ledger') :
    Booking ledger req ledger' := by
  unfold post at h
  split at h
  · split at h
    · cases h
    · exact Option.some.inj h ▸ .keep
  · split at h
    · split at h
      · cases h
      · exact Option.some.inj h ▸ .post kind u he hu (by simpa using ‹¬ ledger.booked u = true›)
    · split at h
      · cases h
      · exact Option.some.inj h ▸ .keep

theorem booking_of_rollback (he : req.endpoint = .rollback)
    (hr : req.referenceTransactionUuid = some reference)
    (h : ledger.rollback reference v = some ledger') : Booking ledger req ledger' := by
  unfold rollback at h
  split at h
  · split at h
    · cases h
    · split at h
      · exact Option.some.inj h ▸ .reverse reference he hr
      · split at h
        · cases h
        · exact Option.some.inj h ▸ .keep
  · split at h
    · cases h
    · exact Option.some.inj h ▸ .keep

/-- **A delivered request changes the ledger in one of these ways.** -/
theorem booking_of_process (h : ledger.process req v = some ledger') :
    Booking ledger req ledger' := by
  unfold process at h
  split at h
  · exact booking_of_post .bet ‹_› ‹_› h
  · exact booking_of_post .win ‹_› ‹_› h
  · split at h
    · exact booking_of_rollback ‹_› ‹_› h
    · exact Option.some.inj h ▸ .keep
  · exact Option.some.inj h ▸ .keep

/-- **An operator that reports success to a rollback has reversed its transaction.** -/
theorem reversed_of_success (h : ledger.process req v = some ledger') (he : req.endpoint = .rollback)
    (hu : req.transactionUuid = some u) (hr : req.referenceTransactionUuid = some reference)
    (hs : isSuccessOrDuplicate v.status = true) : ledger'.reversed reference = true := by
  simp only [process, he, hu, hr, rollback, hs, true_and] at h
  split at h
  · rename_i hbooked
    split at h
    · cases h
    · split at h
      · exact Option.some.inj h ▸ reversed_reverse hbooked
      · split at h
        · cases h
        · exact Option.some.inj h ▸ by simpa using ‹¬¬ ledger.reversed reference = true›
  · simp at h

/-- **An operator that reports success to a debit has booked it.** -/
theorem booked_of_success (h : ledger.process req v = some ledger') (he : req.endpoint = .bet)
    (hu : req.transactionUuid = some u) (hs : isSuccessOrDuplicate v.status = true) :
    ledger'.booked u = true := by
  simp only [process, he, hu, post, hs] at h
  split at h
  · split at h
    · cases h
    · exact Option.some.inj h ▸ ‹ledger.booked u = true›
  · split at h
    · split at h
      · cases h
      · rw [← Option.some.inj h]
        simp [booked]
    · simp at h

/-- **An operator that does not know the transaction of a rollback has not booked it.** -/
theorem not_booked_of_notFound (h : ledger.process req v = some ledger')
    (he : req.endpoint = .rollback) (hu : req.transactionUuid = some u)
    (hr : req.referenceTransactionUuid = some reference) (hs : v.status = .transactionNotFound) :
    ledger' = ledger ∧ ledger.booked reference = false := by
  simp only [process, he, hu, hr, rollback, hs, isSuccessOrDuplicate] at h
  split at h
  · simp at h
  · exact ⟨(Option.some.inj (by simpa using h)).symm, by simpa using ‹¬ ledger.booked reference = true›⟩

namespace Booking

/-- What is booked stays booked. -/
theorem booked (h : Booking ledger req ledger') (hb : ledger.booked u = true) :
    ledger'.booked u = true := by
  rw [booked_iff] at hb ⊢
  cases h with
  | keep => exact hb
  | post => simp [hb]
  | reverse => simpa using hb

/-- What is reversed stays reversed. -/
theorem reversed (h : Booking ledger req ledger') (hr : ledger.reversed u = true) :
    ledger'.reversed u = true := by
  obtain ⟨e, he, hu, hback⟩ := reversed_iff.mp hr
  cases h with
  | keep => exact hr
  | post => exact reversed_iff.mpr ⟨e, List.mem_append_left _ he, hu, hback⟩
  | reverse reference =>
      refine reversed_iff.mpr ⟨_, mem_reverse.mpr ⟨e, he, rfl⟩, ?_, ?_⟩ <;> split <;> simp [hu, hback]

/-- Every transaction is booked once. -/
theorem nodup (h : Booking ledger req ledger') (hn : ledger.names.Nodup) : ledger'.names.Nodup := by
  cases h with
  | keep => exact hn
  | post kind uuid he hu hnew =>
      rw [names_concat, List.nodup_append]
      refine ⟨hn, by simp, fun a ha b hb => ?_⟩
      rintro rfl
      obtain rfl := List.mem_singleton.mp hb
      exact booked_eq_false_iff.mp hnew ha
  | reverse => simpa using hn

/-- Where an entry comes from: it was there, perhaps not reversed yet, or the request booked it. -/
theorem mem (h : Booking ledger req ledger') {e : LedgerEntry} (he : e ∈ ledger') :
    (∃ e₀ ∈ ledger, e = e₀ ∨ (e = { e₀ with rolledBack := true } ∧ req.endpoint = .rollback ∧
        req.referenceTransactionUuid = some e₀.transactionUuid)) ∨
      ∃ kind uuid, req.endpoint = kind.endpoint ∧ req.transactionUuid = some uuid ∧
        e = entry kind uuid req := by
  cases h with
  | keep => exact .inl ⟨e, he, .inl rfl⟩
  | post kind uuid hend hu hn =>
      rcases List.mem_append.mp he with he | he
      · exact .inl ⟨e, he, .inl rfl⟩
      · exact .inr ⟨kind, uuid, hend, hu, List.mem_singleton.mp he⟩
  | reverse reference hend hr =>
      obtain ⟨e₀, he₀, rfl⟩ := mem_reverse.mp he
      refine .inl ⟨e₀, he₀, ?_⟩
      split
      · rename_i heq
        exact .inr ⟨rfl, hend, heq ▸ hr⟩
      · exact .inl rfl

end Booking

end Ledger

end YantraRgs
