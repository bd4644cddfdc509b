import YantraRgs.Conduct.Server
import YantraRgs.Wallet.Ledger

/-! # Messages and the ledger along a run

Calls hand requests over and leave the ledger alone; it changes when a request is delivered.

* **`Addressed`** — what the requests on the wire are about: every one names its bet.
* **`Booked`** — where the entries of the ledger come from. -/

namespace YantraRgs

open Await

variable {P : Policy} {i : Nat} {k : Call} {w w' : World} {p q : State} {x : Happening}

/-- Calls do not touch the ledger. -/
theorem Move.book_eq (h : Move P i k w w') : w'.book = w.book := by
  cases h with
  | idle h => exact h.book
  | _ => rfl

/-- Nor what was answered. -/
theorem Move.replies_eq (h : Move P i k w w') : w'.replies = w.replies := by
  cases h with
  | idle h => exact h.replies
  | _ => rfl

/-- A move leaves the messages alone or hands one request over. -/
theorem Move.wire_cases (h : Move P i k w w') : (w'.wire = w.wire ∧ w'.inflight = w.inflight) ∨
    ∃ s, w' = w.hand s ∧ Handing P i k w s ∧ Journalled P w s := by
  cases h with
  | idle h => exact .inl ⟨h.wire, h.inflight⟩
  | hand s _ h hr => exact .inr ⟨s, rfl, h, hr⟩
  | _ => exact .inl ⟨rfl, rfl⟩

/-- **What happens to the ledger from outside**: a request on its way is delivered and answered, or the
ledger and the answers stay as they are. -/
theorem outside_book {y : Outside} (h : w.outside y = some w') :
    (∃ sent v message s book, y = .deliver sent v message ∧ sent ∈ w.inflight ∧
        w.wire[sent]? = some s ∧ w.book.process s.request v = some book ∧
          w' = { w.noteReply sent v message with book }) ∨
      (w'.book = w.book ∧ w'.replies = w.replies ∧ w'.inflight ⊆ w.inflight) := by
  cases y with
  | deliver sent v message =>
      simp only [World.outside, World.deliver] at h
      split at h
      · rename_i hsent
        obtain ⟨s, hs, h⟩ := Option.bind_eq_some_iff.mp h
        obtain ⟨book, hbook, rfl⟩ := Option.map_eq_some_iff.mp h
        exact .inl ⟨sent, v, message, s, book, rfl, hsent, hs, hbook, rfl⟩
      · cases h
  | drop sent =>
      obtain rfl : _ = w' := by simpa [World.outside] using h
      exact .inr ⟨rfl, rfl, List.filter_subset_self _⟩
  | _ =>
      obtain rfl : _ = w' := by simpa [World.outside] using h
      exact .inr ⟨rfl, rfl, List.Subset.refl _⟩


/-! ## What the requests are about -/

/-- **Every request on the wire names its bet**: a debit the transaction that takes its stake, a win
and a rollback the stake that they refer to. -/
structure Addressed (w : World) : Prop where
  debits : ∀ s ∈ w.wire, s.request.endpoint = .bet →
    ∃ b ∈ w.bets, s.request.transactionUuid = some b.betTransactionUuid
  wins : ∀ s ∈ w.wire, s.request.endpoint = .win → ∃ b ∈ w.bets,
    s.request.referenceTransactionUuid = some b.betTransactionUuid ∧ b.status.taken = true ∧
      ∃ u, s.request.transactionUuid = some u ∧ u.use = .credit
  rollbacks : ∀ s ∈ w.wire, s.request.endpoint = .rollback → ∃ b ∈ w.bets,
    s.request.referenceTransactionUuid = some b.betTransactionUuid ∧ b.status ≠ .pending ∧
      ∃ u, s.request.transactionUuid = some u

/-- What the requests name stays there. -/
theorem Addressed.later (h : Addressed w) (hl : Later w w') (hwire : w'.wire = w.wire) :
    Addressed w' where
  debits s hs he := by
    obtain ⟨b, hb, hu⟩ := h.debits s (hwire ▸ hs) he
    obtain ⟨b', hb', hbl⟩ := hl.mem_bets hb
    exact ⟨b', hb', hbl.betTransactionUuid ▸ hu⟩
  wins s hs he := by
    obtain ⟨b, hb, hr, ht, hu⟩ := h.wins s (hwire ▸ hs) he
    obtain ⟨b', hb', hbl⟩ := hl.mem_bets hb
    exact ⟨b', hb', hbl.betTransactionUuid ▸ hr, hbl.taken ht, hu⟩
  rollbacks s hs he := by
    obtain ⟨b, hb, hr, hp, hu⟩ := h.rollbacks s (hwire ▸ hs) he
    obtain ⟨b', hb', hbl⟩ := hl.mem_bets hb
    exact ⟨b', hb', hbl.betTransactionUuid ▸ hr, fun hpend => hp (hbl.pending hpend), hu⟩

/-- A request that is handed over names its bet. -/
theorem Handing.addressed {s : Sent} (h : Handing P i k w s) (hs : Sound P w) (hw : Addressed w) :
    Addressed (w.hand s) := by
  have hold : ∀ {t : Sent}, t ∈ (w.hand s).wire → t ∈ w.wire ∨ t = s := fun ht =>
    (List.mem_append.mp ht).imp_right List.mem_singleton.mp
  have hjob : ∀ {j : PendingWalletJob}, j ∈ w.jobs → j.request = some s.request → ∃ b ∈ w.bets,
      s.request.referenceTransactionUuid = some b.betTransactionUuid ∧
        (∃ u, s.request.transactionUuid = some u) ∧
          ((s.request.endpoint = .rollback ∧ b.status ≠ .pending) ∨
            (s.request.endpoint = .win ∧ b.status.taken = true ∧
              ∀ u, s.request.transactionUuid = some u → u.use = .credit)) := by
    intro j hj hreq
    obtain ⟨b, ⟨id, -, hb⟩, href, hp⟩ := hs.jobBet hj
    obtain ⟨-, hend, hrest⟩ := PendingWalletJob.request_fields hreq
    obtain ⟨hr, hu⟩ := hrest (hp.symm.imp And.left And.left)
    refine ⟨b, List.mem_of_getElem? hb, hr.trans href, ⟨_, hu⟩, hp.imp ?_ ?_⟩
    · exact fun ⟨he, hn⟩ => ⟨hend.trans he, hn⟩
    · exact fun ⟨he, ht, huse⟩ => ⟨hend.trans he, ht, fun u hu' =>
        Option.some.inj (hu.symm.trans hu') ▸ huse⟩
  refine ⟨fun t ht he => ?_, fun t ht he => ?_, fun t ht he => ?_⟩ <;>
    rcases hold ht with ht | rfl
  · exact hw.debits t ht he
  · cases h with
    | stake b hb _ _ _ htx => exact ⟨b, hb, htx⟩
    | credit _ _ _ _ _ hwin => exact nomatch he.symm.trans hwin
    | job j hj hreq =>
        obtain ⟨-, -, -, -, ⟨hend, -⟩ | ⟨hend, -⟩⟩ := hjob hj.1 hreq <;>
          exact nomatch he.symm.trans hend
  · exact hw.wins t ht he
  · cases h with
    | stake _ _ _ _ hbet => exact nomatch he.symm.trans hbet
    | credit b hb htaken _ _ _ href u hu huse => exact ⟨b, hb, href, htaken, u, hu, huse⟩
    | job j hj hreq =>
        obtain ⟨b, hb, href, ⟨u, hu⟩, ⟨hend, -⟩ | ⟨-, htaken, huse⟩⟩ := hjob hj.1 hreq
        · exact nomatch he.symm.trans hend
        · exact ⟨b, hb, href, htaken, u, hu, huse u hu⟩
  · exact hw.rollbacks t ht he
  · cases h with
    | stake _ _ _ _ hbet => exact nomatch he.symm.trans hbet
    | credit _ _ _ _ _ hwin => exact nomatch he.symm.trans hwin
    | job j hj hreq =>
        obtain ⟨b, hb, href, hu, ⟨-, hn⟩ | ⟨hend, -⟩⟩ := hjob hj.1 hreq
        · exact ⟨b, hb, href, hn, hu⟩
        · exact nomatch he.symm.trans hend

/-- **Every step keeps what the requests name.** -/
theorem Addressed.step (h : Addressed p.world) (hs : Sound P p.world) (hx : Stepped P p x q) :
    Addressed q.world := by
  cases hx with
  | move i c t _ _ _ _ hm =>
      rcases hm.wire_cases with ⟨hwire, -⟩ | ⟨s, hq, hh, -⟩
      · exact h.later hm.later hwire
      · exact hq ▸ hh.addressed hs h
  | outer y _ hy => exact h.later (outside_later hy) (outside_outer hy).wire
  | stay hw => exact hw ▸ h

/-! ## Where the entries of the ledger come from -/

/-- **Every entry of the ledger was booked by a request on the wire**, and every transaction once. -/
structure Booked (w : World) : Prop where
  once : w.book.names.Nodup
  source : ∀ e ∈ w.book, ∃ s ∈ w.wire, s.request.endpoint = e.kind.endpoint ∧
    s.request.transactionUuid = some e.transactionUuid ∧
      s.request.referenceTransactionUuid = e.referenceTransactionUuid ∧
        s.request.amountMicro.getD 0 = e.amountMicro

/-- The requests stay on the wire. -/
theorem Booked.later (h : Booked w) (hl : Later w w') (hbook : w'.book = w.book) : Booked w' where
  once := hbook ▸ h.once
  source e he := by
    obtain ⟨s, hs, hrest⟩ := h.source e (hbook ▸ he)
    obtain ⟨n, hn⟩ := List.mem_iff_getElem?.mp hs
    exact ⟨s, List.mem_of_getElem? (hl.wire hn), hrest⟩

/-- **Every step keeps where the entries come from.** -/
theorem Booked.step (h : Booked p.world) (hx : Stepped P p x q) : Booked q.world := by
  cases hx with
  | move i c t _ _ _ _ hm => exact h.later hm.later hm.book_eq
  | outer y _ hy =>
      rcases outside_book hy with ⟨sent, v, message, s, book, -, -, hs, hbook, hq⟩ | ⟨hbook, -⟩
      · have hb := Ledger.booking_of_process hbook
        rw [hq]
        refine ⟨hb.nodup h.once, fun e he => ?_⟩
        rcases hb.mem he with ⟨e₀, he₀, rfl | ⟨rfl, -⟩⟩ | ⟨kind, uuid, hend, hu, rfl⟩
        · exact h.source _ he₀
        · exact h.source e₀ he₀
        · exact ⟨s, List.mem_of_getElem? hs, hend, hu, rfl, rfl⟩
      · exact h.later (outside_later hy) hbook
  | stay hw => exact hw ▸ h

end YantraRgs
