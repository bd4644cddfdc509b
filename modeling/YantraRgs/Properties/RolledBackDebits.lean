import Mathlib.Algebra.BigOperators.Group.List.Basic
import Mathlib.Algebra.Ring.Int.Defs
import Mathlib.Data.List.Nodup
import YantraRgs.Conduct.Bookings
import YantraRgs.Properties.Runs

/-! # An uncertain debit nets to zero

When the operator's answer leaves a debit uncertain, the bet is rejected and a rollback is queued. Once
the rollback is completed the bet has no effect on the player's balance, however often and in whatever
order the messages are delivered, as long as no rollback overtakes its debit: an operator that has not
seen the debit says so, the job is completed with that answer, and a debit that arrives later stays.

* **`World.netOf`** — what the operator booked about a stake; `NotOvertaken` — the condition.
* **`Compensated`** — the invariant: what the answers to rollbacks say about their debits.
* **`uncertain_nets_zero`** — the property in every state reached; `overtaken_debit` — a run in which
  the rollback comes first. -/

namespace YantraRgs

open Await

variable {env : Env} {P : Policy} {i : Nat} {k : Call} {w w' : World} {p q : State} {x : Happening}
variable {stake : Uuid}

/-- Whether a ledger entry is about a stake: it took the stake, or it paid a win for it. -/
def LedgerEntry.about (stake : Uuid) (e : LedgerEntry) : Bool :=
  match e.kind with
  | .bet => e.transactionUuid = stake
  | .win => e.referenceTransactionUuid = some stake

/-- **The net effect of a stake on the player's balance**, as the operator booked it. -/
def World.netOf (w : World) (stake : Uuid) : Int :=
  ((w.book.filter (·.about stake)).map LedgerEntry.net).sum

/-- A copy of the debit of a stake is on its way. -/
def World.DebitInFlight (w : World) (stake : Uuid) : Prop :=
  ∃ n ∈ w.inflight, ∃ s ∈ w.wire[n]?, s.request.endpoint = .bet ∧
    s.request.transactionUuid = some stake

/-- The stake that a delivery says is unknown to the operator: the reference of a rollback. -/
def World.unknownStake? (w : World) : Happening → Option Uuid
  | .env (.deliver sent v _) =>
      if v.status = .transactionNotFound then
        (w.wire[sent]?).bind fun s =>
          if s.request.endpoint = .rollback then s.request.referenceTransactionUuid else none
      else none
  | _ => none

/-- **No rollback overtakes its debit**: whenever the operator says of a rollback that it does not
know its transaction, no copy of the debit is on its way. -/
def NotOvertaken (p : State) (x : Happening) (_ : State) : Prop :=
  ∀ stake ∈ p.world.unknownStake? x, ¬ p.world.DebitInFlight stake

instance (w : World) (stake : Uuid) : Decidable (w.DebitInFlight stake) :=
  inferInstanceAs (Decidable (∃ n ∈ w.inflight, ∃ s ∈ w.wire[n]?, s.request.endpoint = .bet ∧
    s.request.transactionUuid = some stake))

instance (p : State) (x : Happening) (q : State) : Decidable (NotOvertaken p x q) :=
  inferInstanceAs (Decidable (∀ stake ∈ p.world.unknownStake? x, ¬ p.world.DebitInFlight stake))

theorem notOvertaken_meets : Meets (.free env) NotOvertaken where
  permit _ _ := .of_free (fun h => h) (fun h => h) (fun h => h) fun h => h
  engines h := h.elim
  countedUp h := h.elim
  fit _ := ⟨fun h => h.elim, fun h => h.elim⟩
  closed h := h.elim
  crashes h := h.elim
  configs h := h.elim
  verifies h := h.elim
  focus _ _ h := nomatch h

/-! ## What the answers say -/

/-- **A debit is gone**: it is not booked, and no copy of it is on its way. -/
def World.DebitGone (w : World) (stake : Uuid) : Prop :=
  w.book.booked stake = false ∧ ¬ w.DebitInFlight stake

/-- **What the answers to rollbacks say about their debits**: after one that ends the job, the debit is
reversed or gone. -/
structure Compensated (w : World) : Prop where
  addressed : Addressed w
  booked : Booked w
  replied : ∀ r ∈ w.replies, r.sent < w.wire.length
  answered : ∀ r ∈ w.replies, ∀ s, w.wire[r.sent]? = some s → s.request.endpoint = .rollback →
    ∀ stake, s.request.referenceTransactionUuid = some stake → endsJob r.status = true →
      w.book.reversed stake = true ∨ w.DebitGone stake
  completed : ∀ j ∈ w.jobs, j.completedAt.isSome = true → w.Answered j

theorem Compensated.initial (operators : List OperatorRow) (credentials : List OperatorCredential)
    (gameConfigs : List OperatorGameConfig) :
    Compensated (World.initial operators credentials gameConfigs) where
  addressed := ⟨fun _ h => (nomatch h), fun _ h => (nomatch h), fun _ h => (nomatch h)⟩
  booked := ⟨List.nodup_nil, fun _ h => (nomatch h)⟩
  replied _ h := nomatch h
  answered _ h := nomatch h
  completed _ h := nomatch h

/-- The stake of a rollback is that of a bet which is not pending, so no debit for it is handed over. -/
theorem Handing.not_debit {s t : Sent} (h : Handing P i k w s) (hs : Sound P w) (hw : Addressed w)
    (ht : t ∈ w.wire) (hend : t.request.endpoint = .rollback)
    (href : t.request.referenceTransactionUuid = some stake) (hbet : s.request.endpoint = .bet) :
    s.request.transactionUuid ≠ some stake := by
  intro htx
  obtain ⟨b, hb, hr, hp, -⟩ := hw.rollbacks t ht hend
  obtain rfl := Option.some.inj (href.symm.trans hr)
  cases h with
  | stake b' hb' _ hp' _ htx' =>
      -- two bets with one stake are one
      have hu := Option.some.inj (htx.symm.trans htx')
      obtain ⟨n, hn⟩ := List.mem_iff_getElem?.mp hb
      obtain ⟨m, hm⟩ := List.mem_iff_getElem?.mp hb'
      obtain rfl := hs.betOwner hn hm (congrArg Uuid.owner hu)
      obtain rfl := Option.some.inj (hn.symm.trans hm)
      exact hp hp'
  | credit _ _ _ _ _ hwin => exact nomatch hbet.symm.trans hwin
  | job j hj hreq =>
      obtain ⟨b', -, -, hpurpose⟩ := hs.jobBet hj.1
      have hjend := (PendingWalletJob.request_fields hreq).2.1
      rcases hpurpose with ⟨he, -⟩ | ⟨he, -⟩ <;> exact nomatch (hbet.symm.trans hjend).trans he

/-- A debit that is gone stays gone when a call acts. -/
theorem World.DebitGone.move {t : Sent} (h : w.DebitGone stake) (hm : Move P i k w w')
    (hs : Sound P w) (hw : Addressed w) (ht : t ∈ w.wire) (hend : t.request.endpoint = .rollback)
    (href : t.request.referenceTransactionUuid = some stake) : w'.DebitGone stake := by
  refine ⟨hm.book_eq ▸ h.1, ?_⟩
  rcases hm.wire_cases with ⟨hwire, hinflight⟩ | ⟨s', rfl, hh, -⟩
  · simpa only [World.DebitInFlight, hwire, hinflight] using h.2
  · rintro ⟨n, hn, s, hsn, hbet, htx⟩
    -- the request that is handed over is no debit of this stake, and the others are old
    rcases Table.getElem?_concat_cases hsn with hsn | ⟨rfl, rfl⟩
    · rcases List.mem_append.mp hn with hn | hn
      · exact h.2 ⟨n, hn, s, hsn, hbet, htx⟩
      · rw [List.mem_singleton.mp hn] at hsn
        simp at hsn
    · exact hh.not_debit hs hw ht hend href hbet htx

/-- Nor does it come back from outside: what is delivered about other transactions does not book it. -/
theorem World.DebitGone.outside {y : Outside} (h : w.DebitGone stake) (hy : w.outside y = some w')
    (hw : Addressed w) (hstake : stake.use = .stake) : w'.DebitGone stake := by
  have hwire : w'.wire = w.wire := (outside_outer hy).wire
  have hflight : w'.inflight ⊆ w.inflight → ¬ w'.DebitInFlight stake := by
    rintro hsub ⟨n, hn, s, hsn, hrest⟩
    exact h.2 ⟨n, hsub hn, s, hwire ▸ hsn, hrest⟩
  rcases outside_book hy with ⟨sent, v, message, s, book, rfl, hsent, hsn, hbook, rfl⟩ | ⟨hbook, -, hsub⟩
  · refine ⟨Ledger.booked_eq_false_iff.mpr fun hmem => ?_, hflight fun _ hn => hn⟩
    obtain ⟨e, he, rfl⟩ := List.mem_map.mp hmem
    have hnot := Ledger.booked_eq_false_iff.mp h.1
    rcases (Ledger.booking_of_process hbook).mem he with ⟨e₀, he₀, heq⟩ | ⟨kind, uuid, hend, hu, rfl⟩
    · refine hnot (List.mem_map.mpr ⟨e₀, he₀, ?_⟩)
      rcases heq with rfl | ⟨rfl, -⟩ <;> rfl
    · cases kind with
      | bet => exact h.2 ⟨sent, hsent, s, hsn, hend, hu⟩
      | win =>
          -- a win has a transaction of its own
          obtain ⟨-, -, -, -, u, hu', huse⟩ := hw.wins s (List.mem_of_getElem? hsn) hend
          obtain rfl := Option.some.inj (hu.symm.trans hu')
          exact nomatch huse.symm.trans hstake
  · exact ⟨hbook ▸ h.1, hflight hsub⟩

/-- What an answer says stays so. -/
theorem Compensated.kept (h : Compensated p.world) (hs : Sound P p.world) (hx : Stepped P p x q)
    {t : Sent} (ht : t ∈ p.world.wire) (hend : t.request.endpoint = .rollback)
    (href : t.request.referenceTransactionUuid = some stake)
    (hsaid : p.world.book.reversed stake = true ∨ p.world.DebitGone stake) :
    q.world.book.reversed stake = true ∨ q.world.DebitGone stake := by
  obtain ⟨b, hb, hr, -⟩ := h.addressed.rollbacks t ht hend
  obtain rfl := Option.some.inj (href.symm.trans hr)
  cases hx with
  | move i c t' _ _ _ _ hm =>
      exact hsaid.imp (fun hrev => hm.book_eq ▸ hrev)
        fun hgone => hgone.move hm hs h.addressed ht hend href
  | outer y _ hy =>
      refine hsaid.imp (fun hrev => ?_) fun hgone => hgone.outside hy h.addressed (hs.betUse hb)
      rcases outside_book hy with ⟨_, _, _, _, _, -, -, -, hbook, hq⟩ | ⟨hbook, -⟩
      · rw [hq]
        exact (Ledger.booking_of_process hbook).reversed hrev
      · exact hbook ▸ hrev
  | stay hw => exact hw ▸ hsaid

/-- Where an answer comes from: it was there, or the step delivers the request that it is to. -/
theorem Stepped.reply_origin (hx : Stepped P p x q) {r : Reply} (hr : r ∈ q.world.replies) :
    r ∈ p.world.replies ∨ ∃ v message s book, x = .env (.deliver r.sent v message) ∧
      p.world.wire[r.sent]? = some s ∧ p.world.book.process s.request v = some book ∧
        r.status = v.status ∧ q.world = { p.world.noteReply r.sent v message with book } := by
  cases hx with
  | move i c t _ _ _ _ hm => exact .inl (hm.replies_eq ▸ hr)
  | outer y hxy hy =>
      rcases outside_book hy with ⟨sent, v, message, s, book, rfl, -, hsn, hbook, hq⟩ | ⟨-, hrep, -⟩
      · rw [hq] at hr
        rcases List.mem_append.mp hr with hr | hr
        · exact .inl hr
        · obtain rfl := List.mem_singleton.mp hr
          exact .inr ⟨v, message, s, book, hxy, hsn, hbook, rfl, hq⟩
      · exact .inl (hrep ▸ hr)
  | stay hw => exact .inl (hw ▸ hr)

/-- A request on the wire keeps its place. -/
theorem Stepped.wire_old (hx : Stepped P p x q) {n : Nat} {s : Sent} (hn : n < p.world.wire.length)
    (hs : q.world.wire[n]? = some s) : p.world.wire[n]? = some s := by
  obtain ⟨s', hs'⟩ : ∃ s', p.world.wire[n]? = some s' := ⟨_, List.getElem?_eq_getElem hn⟩
  rw [hs', ← hs, hx.later.wire hs']

/-- A completed job was answered. -/
theorem completed_step (h : ∀ j ∈ p.world.jobs, j.completedAt.isSome = true → p.world.Answered j)
    (hx : Stepped P p x q) {j : PendingWalletJob} (hj : j ∈ q.world.jobs)
    (hdone : j.completedAt.isSome = true) : q.world.Answered j := by
  cases hx with
  | move i c t _ _ _ _ hm =>
      obtain ⟨n, hn⟩ := List.mem_iff_getElem?.mp hj
      rcases hm.job_origin hn with ⟨y, hy, rfl | hstep⟩ | ⟨-, hnew⟩
      · exact hm.later.answered (.refl _) (h _ (List.mem_of_getElem? hy) hdone)
      · refine hm.later.answered hstep.later ?_
        cases hstep with
        | complete attempts now ha hl => exact ha
        | lock expiresAt hnow hl => exact h _ (List.mem_of_getElem? hy) hdone
        | putOff attempts error nextAttemptAt hl => exact h _ (List.mem_of_getElem? hy) hdone
      · simp [hnew.opened] at hdone
  | outer y _ hy =>
      exact (outside_later hy).answered (.refl _) (h j ((outside_outer hy).jobs ▸ hj) hdone)
  | stay hw => exact hw ▸ h j (hw ▸ hj) hdone

/-- **Every step keeps what the answers say.** -/
theorem Compensated.step (h : Compensated p.world) (hs : Sound P p.world) (hx : Stepped P p x q)
    (hA : NotOvertaken p x q) : Compensated q.world where
  addressed := h.addressed.step hs hx
  booked := h.booked.step hx
  replied r hr := by
    have hle : p.world.wire.length ≤ q.world.wire.length := by
      by_contra hlt
      obtain ⟨s, hs⟩ : ∃ s, p.world.wire[q.world.wire.length]? = some s :=
        ⟨_, List.getElem?_eq_getElem (by omega)⟩
      have hkept := hx.later.wire hs
      simp at hkept
    refine Nat.lt_of_lt_of_le ?_ hle
    rcases hx.reply_origin hr with hr | ⟨_, _, s, _, -, hsn, -⟩
    · exact h.replied r hr
    · exact (List.getElem?_eq_some_iff.mp hsn).1
  answered r hr s hsn hend stake href hends := by
    rcases hx.reply_origin hr with hr | ⟨v, message, s', book, rfl, hsn', hbook, hstatus, hq⟩
    · have hsn₀ := hx.wire_old (h.replied r hr) hsn
      exact h.kept hs hx (List.mem_of_getElem? hsn₀) hend href
        (h.answered r hr s hsn₀ hend stake href hends)
    · obtain rfl : s' = s := Option.some.inj ((hx.later.wire hsn').symm.trans hsn)
      obtain ⟨-, -, -, -, u, hu⟩ := h.addressed.rollbacks s' (List.mem_of_getElem? hsn') hend
      rw [hstatus, endsJob, Bool.or_eq_true, decide_eq_true_eq] at hends
      rcases hends with hsuccess | hunknown
      · -- the operator has reversed the debit
        left
        rw [hq]
        exact Ledger.reversed_of_success hbook hend hu href hsuccess
      · -- the operator does not know the debit, and none is on its way
        right
        obtain ⟨rfl, hnot⟩ := Ledger.not_booked_of_notFound hbook hend hu href hunknown
        rw [hq]
        refine ⟨hnot, hA stake ?_⟩
        simp [World.unknownStake?, hunknown, hsn', hend, href]
  completed j hj hdone := completed_step h.completed hx hj hdone

/-! ## The net effect -/

/-- Whatever is booked about a rejected bet took its stake. -/
theorem Compensated.about_rejected (h : Compensated w) (hs : Sound P w) {b : Bet} (hb : b ∈ w.bets)
    (hrej : b.status = .rejected) {e : LedgerEntry} (he : e ∈ w.book)
    (habout : e.about b.betTransactionUuid = true) :
    e.transactionUuid = b.betTransactionUuid := by
  unfold LedgerEntry.about at habout
  cases hk : e.kind with
  | bet => simpa [hk] using habout
  | win =>
      -- a win is paid for a bet whose stake was taken
      simp only [hk, decide_eq_true_eq] at habout
      obtain ⟨s, hsw, hend, -, href, -⟩ := h.booked.source e he
      obtain ⟨b', hb', href', htaken, -⟩ := h.addressed.wins s hsw (by rw [hend, hk]; rfl)
      have hu := Option.some.inj ((habout.symm.trans href.symm).trans href')
      obtain ⟨n, hn⟩ := List.mem_iff_getElem?.mp hb
      obtain ⟨m, hm⟩ := List.mem_iff_getElem?.mp hb'
      obtain rfl := hs.betOwner hn hm (congrArg Uuid.owner hu)
      obtain rfl := Option.some.inj (hn.symm.trans hm)
      rw [hrej] at htaken
      cases htaken

/-- The entry of a transaction that was reversed has no effect. -/
theorem Booked.net_of_reversed (h : Booked w) {u : Uuid} (hr : w.book.reversed u = true)
    {e : LedgerEntry} (he : e ∈ w.book) (hu : e.transactionUuid = u) : e.net = 0 := by
  obtain ⟨e', he', hu', hback⟩ := Ledger.reversed_iff.mp hr
  obtain rfl : e = e' := List.inj_on_of_nodup_map h.once he he' (hu.trans hu'.symm)
  simp [LedgerEntry.net, hback]

/-- **A rejected bet whose rollback is completed has no effect.** -/
theorem Compensated.netOf_eq_zero (h : Compensated w) (hs : Sound P w) {id : Nat} {b : Bet}
    (hb : w.bets[id]? = some b) (hrej : b.status = .rejected) {j : PendingWalletJob}
    (hj : j ∈ w.jobs) (he : j.endpoint = .rollback) (hid : j.betId = some id)
    (hdone : j.completedAt.isSome = true) : w.netOf b.betTransactionUuid = 0 := by
  obtain ⟨r, hr, s, hsn, hreq, hends⟩ := h.completed j hj hdone
  obtain ⟨b', ⟨id', hid', hb'⟩, href, -⟩ := hs.jobBet hj
  obtain rfl := Option.some.inj (hid.symm.trans hid')
  obtain rfl := Option.some.inj (hb.symm.trans hb')
  obtain ⟨-, hend, hrest⟩ := PendingWalletJob.request_fields hreq
  have hsaid := h.answered r hr s hsn (hend.trans he) b.betTransactionUuid
    ((hrest (.inr he)).1.trans href) hends
  refine List.sum_eq_zero fun n hn => ?_
  obtain ⟨e, hmem, rfl⟩ := List.mem_map.mp hn
  obtain ⟨hmem, habout⟩ := List.mem_filter.mp hmem
  have hu := h.about_rejected hs (List.mem_of_getElem? hb) hrej hmem habout
  rcases hsaid with hrev | ⟨hgone, -⟩
  · exact h.booked.net_of_reversed hrev hmem hu
  · exact absurd (List.mem_map.mpr ⟨e, hmem, hu⟩) (Ledger.booked_eq_false_iff.mp hgone)

/-- **An uncertain debit nets to zero.** In every run of any calls in any order, with every message
delivered any number of times or never, in which no rollback overtakes its debit: once the rollback of
a rejected bet is completed, the bet has no net effect on the player's balance, then and later. -/
theorem uncertain_nets_zero (h : History env NotOvertaken p) {id : Nat} {b : Bet}
    (hb : p.world.bets[id]? = some b) (hrej : b.status = .rejected) {j : PendingWalletJob}
    (hj : j ∈ p.world.jobs) (he : j.endpoint = .rollback) (hid : j.betId = some id)
    (hdone : j.completedAt.isSome = true) : p.world.netOf b.betTransactionUuid = 0 := by
  obtain ⟨hs, hJ⟩ := History.invariant (J := fun p => Compensated p.world) notOvertaken_meets h
    Compensated.initial fun _ _ _ _ hA hs _ hx hJ => hJ.step hs hx hA
  exact hJ.netOf_eq_zero hs hb hrej hj he hid hdone

/-! ## Two runs -/

namespace Sample

/-- The operator answers the rollback (request 1) with the given status, and the job runner (call 4)
completes the job. -/
def rollbackAnswered (status : RsStatus) : List Happening :=
  [.env (.deliver 1 ⟨true, status, none⟩ none)]

/-- No message is on its way any more. -/
def quiet : List Happening := [.env (.drop 0), .env (.drop 1)]

end Sample

/-- The debit arrives before its rollback, and both arrive twice: nothing is left of it. -/
theorem uncertain_nets_zero_reversed : ∃ p, History Sample.site NotOvertaken p ∧
    ∃ b, p.world.bets[0]? = some b ∧ p.world.book.booked b.betTransactionUuid = true ∧
      p.world.netOf b.betTransactionUuid = 0 := by
  have h : Sample.shows NotOvertaken
      (Sample.uncertain ++ [.env (.deliver 0 ⟨true, .ok, some 90⟩ none)] ++ Sample.attempt 4 ++
        Sample.rollbackAnswered .ok ++ [.run 4 (.reply 1)] ++ Sample.run 4 5 ++
          [.env (.deliver 0 ⟨true, .ok, some 90⟩ none)] ++ Sample.rollbackAnswered .ok)
      (fun p => (p.world.bets[0]?).any fun b => b.status = .rejected &&
        p.world.book.booked b.betTransactionUuid && (p.world.jobs[0]?).any fun j =>
          j.endpoint = .rollback && j.betId = some 0 && j.completedAt.isSome) = true := by
    decide +kernel
  obtain ⟨p, hp, hv⟩ := Sample.history_of_shows h
  simp only [Bool.and_eq_true, Option.any_eq_true, decide_eq_true_eq] at hv
  obtain ⟨b, hb, ⟨hrej, hbooked⟩, j, hj, ⟨he, hid⟩, hdone⟩ := hv
  exact ⟨p, hp, b, hb, hbooked,
    uncertain_nets_zero hp hb hrej (List.mem_of_getElem? hj) he hid hdone⟩

/-- **A debit that was overtaken**: the rollback arrives first and the operator does not know its
transaction; the job is completed, and then the debit arrives. -/
theorem overtaken_debit : ∃ p, History Sample.site Anything p ∧ p.world.inflight = [] ∧
    (∀ j ∈ p.world.jobs, j.completedAt.isSome = true) ∧
      ∃ b, p.world.bets[0]? = some b ∧ b.status = .rejected ∧
        (∃ j ∈ p.world.jobs, j.endpoint = .rollback ∧ j.betId = some 0) ∧
          p.world.netOf b.betTransactionUuid = -10 := by
  have h : Sample.shows Anything
      (Sample.uncertain ++ Sample.attempt 4 ++ Sample.rollbackAnswered .transactionNotFound ++
        [.run 4 (.reply 0)] ++ Sample.run 4 5 ++ [.env (.deliver 0 ⟨true, .ok, some 90⟩ none)] ++
          Sample.quiet)
      (fun p => p.world.inflight.isEmpty && p.world.jobs.all (fun j => j.completedAt.isSome) &&
        (p.world.bets[0]?).any fun b => b.status = .rejected &&
          (p.world.jobs.any fun j => j.endpoint = .rollback && j.betId = some 0) &&
            p.world.netOf b.betTransactionUuid = -10) = true := by decide +kernel
  obtain ⟨p, hp, hv⟩ := Sample.history_of_shows h
  simp only [Bool.and_eq_true, List.all_eq_true, List.any_eq_true, Option.any_eq_true,
    decide_eq_true_eq] at hv
  obtain ⟨⟨hflight, hdone⟩, b, hb, ⟨hrej, j, hj, he, hid⟩, hnet⟩ := hv
  exact ⟨p, hp, List.isEmpty_iff.mp hflight, hdone, b, hb, hrej, ⟨j, hj, he, hid⟩, hnet⟩

end YantraRgs
