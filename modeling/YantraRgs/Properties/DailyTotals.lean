import YantraRgs.Await.RelyGuarantee
import YantraRgs.Services.Reconciliation

/-! # The totals of a day are what the operators booked

A journal row counts for a total when the caller took the answer `RS_OK` and noted it. So the totals
agree with the books as long as every stake and every win that an operator books is heard of in this
way. One that was booked while its caller gave up is missing for good: the retry is told that the
operator has it already, which does not count. A rollback names no amount, so that nothing that is
reversed is ever counted.

* **`Matches`** — the property of a state in which no wallet call is under way.
* **`Heard`** — the condition on one step.
* **`Sound`** — the invariant: a booking of a call whose answer is noted stands against a row.
* **`totals_match`** — the property along every run of one day that meets the condition. -/

namespace YantraRgs.Reconciliation

open Await

variable {p q : State} {w w' : World} {i n m : Nat} {x x' : WalletCallState} {b : Booking}
variable {endpoint : WalletEndpoint} {operatorId : OperatorId} {currency : Currency} {date : Millis}

/-- No wallet call is under way. -/
def World.Quiet (w : World) : Prop := ∀ x ∈ w.calls, x.phase = .journalled ∨ x.phase = .lost

instance (w : World) : Decidable w.Quiet :=
  inferInstanceAs (Decidable (∀ x ∈ w.calls, x.phase = .journalled ∨ x.phase = .lost))

/-- **The totals match the operator**, for every operator, currency and day. -/
structure World.Matches (w : World) : Prop where
  bets : ∀ operatorId currency date,
    (w.computeDailyTotals operatorId currency date).betsAmountMicro =
      w.bookedTotal .bet operatorId currency date
  wins : ∀ operatorId currency date,
    (w.computeDailyTotals operatorId currency date).winsAmountMicro =
      w.bookedTotal .win operatorId currency date
  rollbacks : ∀ operatorId currency date,
    (w.computeDailyTotals operatorId currency date).rollbacksAmountMicro =
      w.bookedTotal .rollback operatorId currency date

/-- **What is assumed of the runs**: they stay within one day. -/
def OneDay (w w' : World) : Prop := AuditChain.startOfDay w'.now = AuditChain.startOfDay w.now

/-- How a wallet call that has a row may go on: its caller takes the answer `RS_OK` exactly when the
operator booked its request, and then the answer gets onto the row. -/
def Taken (w : World) (n : Nat) (phase : Phase) (phase' : Option Phase) : Prop :=
  match phase, phase' with
  | .awaiting, some (.told status) => status = .ok ↔ ∃ b ∈ w.book, b.sent = n
  | .told status, some .lost => status ≠ .ok
  | _, _ => True

instance (w : World) (n : Nat) (phase : Phase) (phase' : Option Phase) :
    Decidable (Taken w n phase phase') := by
  unfold Taken
  split <;> infer_instance

/-- What may be booked: a stake or a win while the caller waits and there is a row for it, and a
rollback of nothing. -/
def Booking.Heard (w : World) (b : Booking) : Prop :=
  if b.endpoint = .rollback then b.amountMicro = 0
  else ∃ x ∈ w.calls[b.sent]?, x.row.isSome ∧ x.phase = .awaiting

instance (w : World) (b : Booking) : Decidable (b.Heard w) := by
  have h : Decidable (∃ x ∈ w.calls[b.sent]?, x.row.isSome = true ∧ x.phase = .awaiting) :=
    match hx : w.calls[b.sent]? with
    | none => .isFalse fun ⟨_, h, _⟩ => nomatch h
    | some x => decidable_of_iff (x.row.isSome = true ∧ x.phase = .awaiting)
        ⟨fun h => ⟨x, rfl, h⟩, fun ⟨_, hx, h⟩ => Option.some.inj hx ▸ h⟩
  unfold Booking.Heard
  infer_instance

/-- **The condition on one step**: what is booked of stakes and wins is heard of, nothing else is, and
nothing is reversed. -/
structure Heard (w w' : World) : Prop where
  calls : ∀ (n : Nat) (x : WalletCallState), w.calls[n]? = some x → x.row.isSome = true →
    x.request.endpoint ≠ .rollback → Taken w n x.phase ((w'.calls[n]?).map WalletCallState.phase)
  books : ∀ b ∈ w'.book, b ∈ w.book ∨ b.Heard w

instance (w w' : World) : Decidable (Heard w w') :=
  decidable_of_iff
    ((∀ (n : Nat) (x : WalletCallState), w.calls[n]? = some x → x.row.isSome = true →
      x.request.endpoint ≠ .rollback → Taken w n x.phase ((w'.calls[n]?).map WalletCallState.phase)) ∧
        ∀ b ∈ w'.book, b ∈ w.book ∨ b.Heard w)
    ⟨fun h => ⟨h.1, h.2⟩, fun h => ⟨h.1, h.2⟩⟩

/-- The runs that the property is about: those of one day in which everything is heard of. -/
def Orderly (p : State) (_ : Happening) (q : State) : Prop :=
  OneDay p.world q.world ∧ Heard p.world q.world

instance (p : State) (e : Happening) (q : State) : Decidable (Orderly p e q) :=
  inferInstanceAs (Decidable (_ = _ ∧ Heard p.world q.world))

/-! ## Days -/

/-- Two instants of one day lie in the same days. -/
theorem inDay_congr {t t' : Millis} (h : AuditChain.startOfDay t = AuditChain.startOfDay t') :
    inDay date t = inDay date t' := by
  unfold inDay AuditChain.startOfDay AuditChain.dayMs at *
  unfold Millis at *
  rw [decide_eq_decide]
  omega

/-! ## The invariant -/

/-- A journal row is the one of a wallet call. -/
structure RowOf (now : Millis) (x : WalletCallState) (r : WalletCall) : Prop where
  endpoint : r.endpoint = x.request.endpoint
  operatorId : r.operatorId = x.request.operatorId
  currency : r.currency = x.request.currency
  amountMicro : r.amountMicro = x.request.amountMicro
  today : AuditChain.startOfDay r.createdAt = AuditChain.startOfDay now
  open_ : x.phase ≠ .journalled → r.succeeded = false

/-- A booking is the one that a wallet call brought. -/
structure BookedBy (now : Millis) (x : WalletCallState) (b : Booking) : Prop where
  endpoint : b.endpoint = x.request.endpoint
  operatorId : b.operatorId = x.request.operatorId
  currency : b.currency = x.request.currency
  transactionUuid : x.request.transactionUuid = some b.transactionUuid
  today : AuditChain.startOfDay b.bookedAt = AuditChain.startOfDay now
  reversal : b.endpoint = .rollback → b.amountMicro = 0
  heard : b.endpoint ≠ .rollback →
    b.amountMicro = x.request.amountMicro.getD 0 ∧ x.row.isSome = true ∧ x.phase ≠ .lost

/-- Whether the answer to the request that brought a booking is noted. -/
def World.noted (w : World) (b : Booking) : Bool :=
  (w.calls[b.sent]?).any fun x => x.phase = .journalled

/-- The bookings that are counted, and whose answer is noted. -/
def World.credited (w : World) (endpoint : WalletEndpoint) (operatorId : OperatorId)
    (currency : Currency) (date : Millis) (b : Booking) : Bool :=
  moved endpoint operatorId currency date b && w.noted b

/-- **The invariant**: every row belongs to one wallet call, every booking to one, a caller that was
told `RS_OK` was told so of its booking, and the rows count what was booked by the calls whose answer
is noted. -/
structure Sound (w : World) : Prop where
  rows : ∀ (n : Nat) (x : WalletCallState) (id : Nat), w.calls[n]? = some x → x.row = some id →
    ∃ r, w.walletCalls[id]? = some r ∧ RowOf w.now x r
  distinct : ∀ (n m : Nat) (x y : WalletCallState) (id : Nat), w.calls[n]? = some x →
    w.calls[m]? = some y → x.row = some id → y.row = some id → n = m
  nameless : ∀ x ∈ w.calls, x.request.endpoint = .rollback → x.request.amountMicro = none
  refunds : ∀ r ∈ w.walletCalls, r.endpoint = .rollback → r.amountMicro = none
  booked : ∀ b ∈ w.book, ∃ x, w.calls[b.sent]? = some x ∧ BookedBy w.now x b
  once : ∀ (k l : Nat) (b c : Booking), w.book[k]? = some b → w.book[l]? = some c →
    b.sent = c.sent → k = l
  told : ∀ (n : Nat) (x : WalletCallState) (status : RsStatus), w.calls[n]? = some x →
    x.phase = .told status → x.row.isSome = true → x.request.endpoint ≠ .rollback →
      (status = .ok ↔ ∃ b ∈ w.book, b.sent = n)
  sums : ∀ endpoint operatorId currency date, endpoint ≠ .rollback →
    Table.total (counts endpoint operatorId currency date) (fun r => r.amountMicro.getD 0)
        w.walletCalls =
      Table.total (w.credited endpoint operatorId currency date) Booking.amountMicro w.book

/-- Whatever leaves the journal, the wallet calls and the books alone keeps the invariant, within the
day. -/
theorem Sound.of_same (h : Sound w) (hday : OneDay w w') (hrows : w'.walletCalls = w.walletCalls)
    (hcalls : w'.calls = w.calls) (hbook : w'.book = w.book) : Sound w' := by
  have hcredited : ∀ endpoint operatorId currency date,
      w'.credited endpoint operatorId currency date =
        w.credited endpoint operatorId currency date := by
    intro endpoint operatorId currency date
    funext b
    simp only [World.credited, World.noted, hcalls]
  refine ⟨fun n x id hx hid => ?_, hcalls ▸ h.distinct, hcalls ▸ h.nameless, hrows ▸ h.refunds,
    fun b hb => ?_, hbook ▸ h.once, ?_, fun endpoint operatorId currency date hne => ?_⟩
  · obtain ⟨r, hr, hrow⟩ := h.rows n x id (hcalls ▸ hx) hid
    exact ⟨r, hrows ▸ hr, { hrow with today := hrow.today.trans hday.symm }⟩
  · obtain ⟨x, hx, hbx⟩ := h.booked b (hbook ▸ hb)
    exact ⟨x, hcalls ▸ hx, { hbx with today := hbx.today.trans hday.symm }⟩
  · rw [hcalls, hbook]
    exact h.told
  · rw [hrows, hbook, hcredited]
    exact h.sums endpoint operatorId currency date hne

/-! ## A wallet call goes on -/

/-- The wallet calls after one of them came to another phase. -/
theorem enter_cases {phase : Phase} (hx : w.calls[n]? = some x)
    (h : (w.enter n phase).calls[m]? = some x') :
    (m = n ∧ x' = { x with phase }) ∨ (m ≠ n ∧ w.calls[m]? = some x') := by
  simp only [World.enter, Table.modify_eq_set hx] at h
  rcases Table.getElem?_set_cases h with ⟨hm, hx', -⟩ | ⟨hm, h⟩
  · exact .inl ⟨hm, hx'⟩
  · exact .inr ⟨hm, h⟩

/-- The wallet call after it came to another phase. -/
theorem enter_self (phase : Phase) (hx : w.calls[n]? = some x) :
    (w.enter n phase).calls[n]? = some { x with phase } := by
  simp only [World.enter, Table.modify_eq_set hx]
  exact Table.getElem?_set_self_of_some hx

/-- The other wallet calls. -/
theorem enter_of_ne (phase : Phase) (hx : w.calls[n]? = some x) (hm : m ≠ n) :
    (w.enter n phase).calls[m]? = w.calls[m]? := by
  simp only [World.enter, Table.modify_eq_set hx]
  exact Table.getElem?_set_of_ne hm

/-- A booking of another wallet call is as noted as it was. -/
theorem noted_enter_of_ne (phase : Phase) (hx : w.calls[n]? = some x) (hb : b.sent ≠ n) :
    (w.enter n phase).noted b = w.noted b := by
  simp only [World.noted, enter_of_ne phase hx hb]

/-- A booking of the wallet call is noted when that is what it came to. -/
theorem noted_enter_self (phase : Phase) (hx : w.calls[n]? = some x) (hb : b.sent = n) :
    (w.enter n phase).noted b = decide (phase = .journalled) := by
  simp only [World.noted, hb, enter_self phase hx, Option.any_some]

/-- What is booked by a wallet call stays booked by it, whatever it comes to. -/
theorem Sound.booked_enter (h : Sound w) {phase : Phase} (hx : w.calls[n]? = some x)
    (hlost : phase = .lost → ∀ b ∈ w.book, b.sent = n → b.endpoint = .rollback) :
    ∀ b ∈ w.book, ∃ y, (w.enter n phase).calls[b.sent]? = some y ∧ BookedBy w.now y b := by
  intro b hb
  obtain ⟨y, hy, hby⟩ := h.booked b hb
  by_cases hn : b.sent = n
  · rw [hn] at hy ⊢
    obtain rfl : x = y := Option.some.inj (hx.symm.trans hy)
    refine ⟨_, enter_self phase hx, hby.endpoint, hby.operatorId, hby.currency, hby.transactionUuid,
      hby.today, hby.reversal, fun hne => ⟨(hby.heard hne).1, (hby.heard hne).2.1, fun hl => ?_⟩⟩
    exact hne (hlost hl b hb hn)
  · exact ⟨y, (enter_of_ne phase hx hn).trans hy, hby⟩

/-- The rows of the wallet calls are their own, whatever one of them comes to. -/
theorem Sound.distinct_enter (h : Sound w) {phase : Phase} (hx : w.calls[n]? = some x) :
    ∀ (k l : Nat) (y z : WalletCallState) (id : Nat), (w.enter n phase).calls[k]? = some y →
      (w.enter n phase).calls[l]? = some z → y.row = some id → z.row = some id → k = l := by
  have hold : ∀ (k : Nat) (y : WalletCallState), (w.enter n phase).calls[k]? = some y →
      ∃ y', w.calls[k]? = some y' ∧ y'.row = y.row := by
    intro k y hy
    rcases enter_cases hx hy with ⟨rfl, rfl⟩ | ⟨-, hy⟩
    · exact ⟨x, hx, rfl⟩
    · exact ⟨y, hy, rfl⟩
  intro k l y z id hy hz hyid hzid
  obtain ⟨y', hy', hyrow⟩ := hold k y hy
  obtain ⟨z', hz', hzrow⟩ := hold l z hz
  exact h.distinct k l y' z' id hy' hz' (hyrow.trans hyid) (hzrow.trans hzid)

/-- The requests of the wallet calls stay as they are. -/
theorem Sound.nameless_enter (h : Sound w) {phase : Phase} (hx : w.calls[n]? = some x) :
    ∀ y ∈ (w.enter n phase).calls, y.request.endpoint = .rollback →
      y.request.amountMicro = none := by
  intro y hy
  obtain ⟨k, hk⟩ := List.mem_iff_getElem?.mp hy
  rcases enter_cases hx hk with ⟨-, rfl⟩ | ⟨-, hk⟩
  · exact h.nameless x (List.mem_of_getElem? hx)
  · exact h.nameless y (List.mem_of_getElem? hk)

/-- **The invariant survives a wallet call that goes on**, short of noting its answer. -/
theorem Sound.enter (h : Sound w) {phase : Phase} (hx : w.calls[n]? = some x)
    (hopen : x.phase ≠ .journalled) (hphase : phase ≠ .journalled)
    (hlost : phase = .lost → ∀ b ∈ w.book, b.sent = n → b.endpoint = .rollback)
    (htold : ∀ status, phase = .told status → x.row.isSome = true →
      x.request.endpoint ≠ .rollback → (status = .ok ↔ ∃ b ∈ w.book, b.sent = n)) :
    Sound (w.enter n phase) := by
  refine ⟨fun k y id hy hid => ?_, h.distinct_enter hx, h.nameless_enter hx, h.refunds,
    h.booked_enter hx hlost, h.once, fun k y status hy hst hrow hne => ?_,
    fun endpoint operatorId currency date hne => ?_⟩
  · rcases enter_cases hx hy with ⟨rfl, rfl⟩ | ⟨-, hy⟩
    · obtain ⟨r, hr, hro⟩ := h.rows k x id hx hid
      exact ⟨r, hr, hro.endpoint, hro.operatorId, hro.currency, hro.amountMicro, hro.today,
        fun _ => hro.open_ hopen⟩
    · exact h.rows k y id hy hid
  · rcases enter_cases hx hy with ⟨rfl, rfl⟩ | ⟨-, hy⟩
    · exact htold status hst hrow hne
    · exact h.told k y status hy hst hrow hne
  · refine (h.sums endpoint operatorId currency date hne).trans (Table.total_congr fun b _ => ?_)
    by_cases hn : b.sent = n
    · have hbefore : w.noted b = false := by
        simp [World.noted, hn, hx, hopen]
      rw [World.credited, World.credited, hbefore, noted_enter_self phase hx hn]
      simp [hphase]
    · rw [World.credited, World.credited, noted_enter_of_ne phase hx hn]

/-- The row of a wallet call with the answer noted. -/
theorem RowOf.noteAnswer {now : Millis} {r : WalletCall} (h : RowOf now x r) (status : RsStatus) :
    RowOf now { x with phase := .journalled } (noteAnswer status r) :=
  ⟨h.endpoint, h.operatorId, h.currency, h.amountMicro, h.today, fun hp => absurd rfl hp⟩

/-- A row on which `RS_OK` is noted counts where the booking of its call does. -/
theorem counts_noteAnswer {now : Millis} {r : WalletCall} (hro : RowOf now x r)
    (hby : BookedBy now x b) : counts endpoint operatorId currency date (noteAnswer .ok r) =
      moved endpoint operatorId currency date b := by
  have hday : inDay date r.createdAt = inDay date b.bookedAt :=
    inDay_congr (hro.today.trans hby.today.symm)
  have hendpoint : (noteAnswer .ok r).endpoint = x.request.endpoint := hro.endpoint
  have hsucc : (noteAnswer .ok r).succeeded = true := rfl
  have hwindow : windowed operatorId currency date (noteAnswer .ok r) =
      windowed operatorId currency date r := rfl
  unfold counts moved
  rw [decide_eq_decide, hendpoint, hsucc, hwindow, windowed, hday, hro.operatorId, hro.currency,
    hby.endpoint, hby.operatorId, hby.currency]
  simp

/-- A row counts for nothing when it is one of a rollback, or the answer noted on it is not `RS_OK`. -/
theorem counts_noteAnswer_of_not {now : Millis} {r : WalletCall} {status : RsStatus}
    (hro : RowOf now x r) (hne : endpoint ≠ .rollback)
    (h : ¬ (x.request.endpoint ≠ .rollback ∧ status = .ok)) :
    counts endpoint operatorId currency date (noteAnswer status r) = false := by
  by_cases hmoney : x.request.endpoint = .rollback
  · have hre : (noteAnswer status r).endpoint ≠ endpoint := by
      show r.endpoint ≠ endpoint
      rw [hro.endpoint, hmoney]
      exact hne.symm
    simp [counts, hre]
  · have hok : status ≠ .ok := fun hok => h ⟨hmoney, hok⟩
    simp [counts, noteAnswer, hok]

/-- **What is credited when an answer is noted**: as much as the row counts for. -/
theorem Sound.credited_journal (h : Sound w) {status : RsStatus} {r : WalletCall}
    (hx : w.calls[n]? = some x) (hrow : x.row.isSome = true) (hst : x.phase = .told status)
    (hro : RowOf w.now x r) (hne : endpoint ≠ .rollback) (operatorId : OperatorId)
    (currency : Currency) (date : Millis) :
    Table.total (World.credited (w.enter n .journalled) endpoint operatorId currency date)
        Booking.amountMicro w.book =
      Table.total (w.credited endpoint operatorId currency date) Booking.amountMicro w.book +
        if counts endpoint operatorId currency date (noteAnswer status r) then
          r.amountMicro.getD 0 else 0 := by
  have hother : ∀ c : Booking, c.sent ≠ n →
      World.credited (w.enter n .journalled) endpoint operatorId currency date c =
        w.credited endpoint operatorId currency date c := by
    intro c hc
    rw [World.credited, World.credited, noted_enter_of_ne _ hx hc]
  have hown : ∀ c ∈ w.book, c.sent = n → BookedBy w.now x c := by
    intro c hc hcn
    obtain ⟨y, hy, hcy⟩ := h.booked c hc
    rw [hcn] at hy
    obtain rfl : x = y := Option.some.inj (hx.symm.trans hy)
    exact hcy
  by_cases hcase : x.request.endpoint ≠ .rollback ∧ status = .ok
  · obtain ⟨hmoney, rfl⟩ := hcase
    obtain ⟨b, hb, hbn⟩ := (h.told n x .ok hx hst hrow hmoney).mp rfl
    have hby := hown b hb hbn
    obtain ⟨k, hk⟩ := List.mem_iff_getElem?.mp hb
    have hbefore : w.credited endpoint operatorId currency date b = false := by
      simp [World.credited, World.noted, hbn, hx, hst]
    have hafter : World.credited (w.enter n .journalled) endpoint operatorId currency date b =
        counts endpoint operatorId currency date (noteAnswer .ok r) := by
      rw [World.credited, noted_enter_self _ hx hbn, counts_noteAnswer hro hby]
      simp
    have hamount : b.amountMicro = r.amountMicro.getD 0 := by
      rw [hro.amountMicro]
      exact (hby.heard (hby.endpoint.symm ▸ hmoney)).1
    rw [Table.total_eq_add hk hbefore fun l c hc hl =>
      hother c fun hcn => hl (h.once l k c b hc hk (hcn.trans hbn.symm)), hafter, hamount]
  · -- nothing that counts was booked by this call
    rw [counts_noteAnswer_of_not hro hne hcase]
    simp only [Bool.false_eq_true, if_false, Int.add_zero]
    refine Table.total_congr fun c hc => ?_
    by_cases hcn : c.sent = n
    · by_cases hmoney : x.request.endpoint = .rollback
      · have hce : c.endpoint ≠ endpoint := by
          rw [(hown c hc hcn).endpoint, hmoney]
          exact hne.symm
        simp [World.credited, moved, hce]
      · exact absurd ⟨hmoney, (h.told n x status hx hst hrow hmoney).mpr ⟨c, hc, hcn⟩⟩ hcase
    · exact hother c hcn

/-- **The invariant survives an answer that is noted.** -/
theorem Sound.journal (h : Sound w) {status : RsStatus} {id : Nat} (hx : w.calls[n]? = some x)
    (hrow : x.row = some id) (hst : x.phase = .told status) :
    Sound ((w.enter n .journalled).updateWalletCall id (noteAnswer status)) := by
  obtain ⟨r, hr, hro⟩ := h.rows n x id hx hrow
  have hrows : ((w.enter n .journalled).updateWalletCall id (noteAnswer status)).walletCalls =
      w.walletCalls.set id (noteAnswer status r) := Table.modify_eq_set (t := w.walletCalls) hr
  refine ⟨fun k y id' hy hid' => ?_, h.distinct_enter hx, h.nameless_enter hx, fun s hs hse => ?_,
    h.booked_enter hx (fun hl => nomatch hl), h.once, fun k y status' hy hst' hyrow hne => ?_,
    fun endpoint operatorId currency date hne => ?_⟩
  · rw [hrows]
    rcases enter_cases hx hy with ⟨rfl, rfl⟩ | ⟨hk, hold⟩
    · obtain rfl : id = id' := Option.some.inj (hrow.symm.trans hid')
      exact ⟨_, Table.getElem?_set_self_of_some hr, hro.noteAnswer status⟩
    · have hne : id' ≠ id := by
        rintro rfl
        exact hk (h.distinct k n y x id' hold hx hid' hrow)
      obtain ⟨s, hs, hso⟩ := h.rows k y id' hold hid'
      exact ⟨s, (Table.getElem?_set_of_ne hne).trans hs, hso⟩
  · rw [hrows] at hs
    rcases Table.mem_set_cases hs with rfl | hs
    · exact h.refunds r (List.mem_of_getElem? hr) hse
    · exact h.refunds s hs hse
  · rcases enter_cases hx hy with ⟨rfl, rfl⟩ | ⟨-, hy⟩
    · cases hst'
    · exact h.told k y status' hy hst' hyrow hne
  · -- the row did not count before
    have hbefore : counts endpoint operatorId currency date r = false := by
      have hsucc : r.succeeded = false := hro.open_ (by rw [hst]; exact fun hp => nomatch hp)
      simp [counts, hsucc]
    have hsome : x.row.isSome = true := by rw [hrow]; rfl
    have hcredited := h.credited_journal hx hsome hst hro hne operatorId currency date
    rw [hrows, Table.total_set hr, hbefore, h.sums endpoint operatorId currency date hne]
    refine Eq.trans ?_ hcredited.symm
    simp [noteAnswer]

/-! ## A wallet call begins -/

/-- **The invariant survives a wallet call that begins**, with a row or without. -/
theorem Sound.createCall (h : Sound w) {req : WalletRequest} {rows : List WalletCall}
    {row : Option Nat} (hreq : req.endpoint = .rollback → req.amountMicro = none)
    (hrow : (rows = w.walletCalls ∧ row = none) ∨
      ∃ r, rows = w.walletCalls ++ [r] ∧ row = some w.walletCalls.length ∧
        RowOf w.now ⟨req, row, i, .opened⟩ r) :
    Sound { w with walletCalls := rows, calls := w.calls ++ [⟨req, row, i, .opened⟩] } := by
  have hold : ∀ {id : Nat} {r : WalletCall}, w.walletCalls[id]? = some r → rows[id]? = some r := by
    intro id r hr
    rcases hrow with ⟨rfl, -⟩ | ⟨s, rfl, -, -⟩
    · exact hr
    · exact Table.getElem?_concat_of_some hr
  have hcalls : ∀ {k : Nat} {y : WalletCallState},
      (w.calls ++ [⟨req, row, i, .opened⟩])[k]? = some y →
        w.calls[k]? = some y ∨ (k = w.calls.length ∧ y = ⟨req, row, i, .opened⟩) :=
    fun hy => Table.getElem?_concat_cases hy
  have hbefore : ∀ {k : Nat} {y : WalletCallState} {id : Nat}, w.calls[k]? = some y →
      y.row = some id → row ≠ some id := by
    intro k y id hy hid hsame
    rcases hrow with ⟨-, rfl⟩ | ⟨s, -, hlen, -⟩
    · cases hsame
    · obtain ⟨r, hr, -⟩ := h.rows k y id hy hid
      have hlt := (List.getElem?_eq_some_iff.mp hr).1
      have hid' : w.walletCalls.length = id := Option.some.inj (hlen.symm.trans hsame)
      omega
  have hsent : ∀ b ∈ w.book, (w.calls ++ [⟨req, row, i, .opened⟩])[b.sent]? = w.calls[b.sent]? := by
    intro b hb
    obtain ⟨y, hy, -⟩ := h.booked b hb
    rw [hy]
    exact Table.getElem?_concat_of_some hy
  refine ⟨fun k y id hy hid => ?_, fun k l y z id hy hz hyid hzid => ?_, fun y hy hye => ?_,
    fun r hr hre => ?_, fun b hb => ?_, h.once, fun k y status hy hst hyrow hne => ?_,
    fun endpoint operatorId currency date hne => ?_⟩
  · rcases hcalls hy with hy | ⟨-, rfl⟩
    · obtain ⟨r, hr, hro⟩ := h.rows k y id hy hid
      exact ⟨r, hold hr, hro⟩
    · rcases hrow with ⟨-, rfl⟩ | ⟨r, rfl, hlen, hro⟩
      · cases hid
      · obtain rfl : w.walletCalls.length = id := Option.some.inj (hlen.symm.trans hid)
        exact ⟨r, Table.getElem?_concat_length _ _, hro⟩
  · rcases hcalls hy with hy | ⟨hk, rfl⟩
    · rcases hcalls hz with hz | ⟨-, rfl⟩
      · exact h.distinct k l y z id hy hz hyid hzid
      · exact absurd hzid (hbefore hy hyid)
    · rcases hcalls hz with hz | ⟨hl, rfl⟩
      · exact absurd hyid (hbefore hz hzid)
      · rw [hk, hl]
  · rcases List.mem_append.mp hy with hy | hy
    · exact h.nameless y hy hye
    · obtain rfl := List.mem_singleton.mp hy
      exact hreq hye
  · rcases hrow with ⟨rfl, -⟩ | ⟨s, rfl, -, hro⟩
    · exact h.refunds r hr hre
    · rcases List.mem_append.mp hr with hr | hr
      · exact h.refunds r hr hre
      · obtain rfl := List.mem_singleton.mp hr
        exact hro.amountMicro.trans (hreq (hro.endpoint.symm.trans hre))
  · obtain ⟨y, hy, hby⟩ := h.booked b hb
    exact ⟨y, Table.getElem?_concat_of_some hy, hby⟩
  · rcases hcalls hy with hy | ⟨-, rfl⟩
    · exact h.told k y status hy hst hyrow hne
    · cases hst
  · have hrows : Table.total (counts endpoint operatorId currency date)
        (fun r => r.amountMicro.getD 0) rows =
          Table.total (counts endpoint operatorId currency date) (fun r => r.amountMicro.getD 0)
            w.walletCalls := by
      rcases hrow with ⟨rfl, -⟩ | ⟨r, rfl, -, hro⟩
      · rfl
      · have hsucc : r.succeeded = false := hro.open_ fun hp => nomatch hp
        rw [Table.total_concat]
        simp [counts, hsucc]
    refine hrows.trans ((h.sums endpoint operatorId currency date hne).trans
      (Table.total_congr fun b hb => ?_))
    simp only [World.credited, World.noted, hsent b hb]

/-! ## The operators -/

/-- What a delivery does: nothing but an answer, or a booking that its operator did not have. -/
theorem deliver_cases {v : Verdict} {message : Option String} (h : w.deliver n v message = some w') :
    w' = w.answered n v message ∨ ∃ x uuid amount, w.calls[n]? = some x ∧
      x.request.transactionUuid = some uuid ∧ w.booked x.request.operatorId uuid = false ∧
        w.moves x.request = some amount ∧
          w' = (w.booking n x.request uuid amount).answered n v message := by
  obtain ⟨x, hx, h⟩ := Option.bind_eq_some_iff.mp h
  split at h
  · cases h
  · split at h
    · exact .inl (Option.some.inj h).symm
    · rename_i uuid huuid
      split at h
      · split at h
        · cases h
        · exact .inl (Option.some.inj h).symm
      · rename_i hnot
        split at h
        · split at h
          · cases h
          · obtain ⟨amount, hamount, rfl⟩ := Option.map_eq_some_iff.mp h
            exact .inr ⟨x, uuid, amount, hx, huuid, by simpa using hnot, hamount, rfl⟩
        · split at h
          · cases h
          · exact .inl (Option.some.inj h).symm

/-- **The invariant survives a booking** that is heard of. -/
theorem Sound.book (h : Sound w) {uuid : Uuid} {amount : Int} (hx : w.calls[n]? = some x)
    (huuid : x.request.transactionUuid = some uuid)
    (hnew : w.booked x.request.operatorId uuid = false) (hmoves : w.moves x.request = some amount)
    (hheard : Heard w (w.booking n x.request uuid amount)) :
    Sound (w.booking n x.request uuid amount) := by
  generalize hc : (⟨x.request.endpoint, x.request.operatorId, x.request.currency, uuid,
    x.request.referenceTransactionUuid, amount, w.now, n⟩ : Booking) = c
  have hbook : (w.booking n x.request uuid amount).book = w.book ++ [c] := by rw [← hc]; rfl
  have hsent : c.sent = n := by rw [← hc]
  have hendpoint : c.endpoint = x.request.endpoint := by rw [← hc]
  -- the operator has no transaction of this call yet
  have hfirst : ∀ b ∈ w.book, b.sent ≠ n := by
    intro b hb hbn
    obtain ⟨y, hy, hby⟩ := h.booked b hb
    rw [hbn] at hy
    obtain rfl : x = y := Option.some.inj (hx.symm.trans hy)
    have huuid' : b.transactionUuid = uuid :=
      Option.some.inj (hby.transactionUuid.symm.trans huuid)
    have hhas : w.booked x.request.operatorId uuid = true :=
      List.any_eq_true.mpr ⟨b, hb, decide_eq_true ⟨hby.operatorId, huuid'⟩⟩
    rw [hnew] at hhas
    cases hhas
  have hown : c.Heard w := by
    rcases hheard.books c (by rw [hbook]; simp) with hb | hb
    · exact absurd hsent (hfirst c hb)
    · exact hb
  -- a stake or a win is booked while its caller waits
  have hmoney : c.endpoint ≠ .rollback → x.row.isSome = true ∧ x.phase = .awaiting := by
    intro hne
    rw [Booking.Heard, if_neg hne] at hown
    obtain ⟨y, hy, hrow, hphase⟩ := hown
    obtain rfl : x = y := Option.some.inj (hx.symm.trans (hsent ▸ hy))
    exact ⟨hrow, hphase⟩
  have hbooked : BookedBy w.now x c := by
    refine ⟨hendpoint, by rw [← hc], by rw [← hc], by rw [huuid, ← hc], by rw [← hc], fun he => ?_,
      fun hne => ⟨?_, (hmoney hne).1, ?_⟩⟩
    · rw [Booking.Heard, if_pos he] at hown
      exact hown
    · have hamount : amount = x.request.amountMicro.getD 0 := by
        rw [hendpoint] at hne
        unfold World.moves at hmoves
        split at hmoves
        · exact (Option.some.inj hmoves).symm
        · exact (Option.some.inj hmoves).symm
        · exact absurd (by assumption) hne
        · cases hmoves
      rw [← hc]
      exact hamount
    · rw [(hmoney hne).2]
      exact fun hl => nomatch hl
  refine ⟨h.rows, h.distinct, h.nameless, h.refunds, fun b hb => ?_, fun k l b d hb hd hbd => ?_,
    fun k y status hy hst hrow hne => ?_, fun endpoint operatorId currency date hne => ?_⟩
  · rw [hbook] at hb
    rcases List.mem_append.mp hb with hb | hb
    · exact h.booked b hb
    · obtain rfl := List.mem_singleton.mp hb
      exact ⟨x, hsent ▸ hx, hbooked⟩
  · rw [hbook] at hb hd
    rcases Table.getElem?_concat_cases hb with hb | ⟨hk, hbc⟩
    · rcases Table.getElem?_concat_cases hd with hd | ⟨-, hdc⟩
      · exact h.once k l b d hb hd hbd
      · exact absurd (hbd.trans (hdc ▸ hsent)) (hfirst b (List.mem_of_getElem? hb))
    · rcases Table.getElem?_concat_cases hd with hd | ⟨hl, -⟩
      · exact absurd (hbd.symm.trans (hbc ▸ hsent)) (hfirst d (List.mem_of_getElem? hd))
      · rw [hk, hl]
  · -- the call itself still waits, unless it is a rollback
    have hkn : k ≠ n := by
      rintro rfl
      obtain rfl : x = y := Option.some.inj (hx.symm.trans hy)
      rw [(hmoney (hendpoint ▸ hne)).2] at hst
      cases hst
    refine (h.told k y status hy hst hrow hne).trans ?_
    rw [hbook]
    constructor
    · rintro ⟨b, hb, hbk⟩
      exact ⟨b, List.mem_append_left _ hb, hbk⟩
    · rintro ⟨b, hb, hbk⟩
      rcases List.mem_append.mp hb with hb | hb
      · exact ⟨b, hb, hbk⟩
      · rw [List.mem_singleton.mp hb, hsent] at hbk
        exact absurd hbk.symm hkn
  · have hnot : w.credited endpoint operatorId currency date c = false := by
      by_cases hce : c.endpoint = endpoint
      · have hphase := (hmoney (hce ▸ hne)).2
        simp [World.credited, World.noted, hsent, hx, hphase]
      · simp [World.credited, moved, hce]
    have hsum := h.sums endpoint operatorId currency date hne
    rw [hbook]
    show Table.total _ _ w.walletCalls = Table.total (w.credited endpoint operatorId currency date) _ _
    rw [Table.total_concat, hnot, hsum]
    simp

/-! ## The calls keep to the rules -/

/-- What the runs permit of one step. -/
def Permit (w w' : World) : Prop := OneDay w w' ∧ Heard w w'

/-- **One action** of call `i`: it keeps the invariant, as far as everything is heard of, and the wallet
calls of the others. -/
structure Move (i : Nat) (w w' : World) : Prop where
  sound : Sound w → Sound w'
  others : ∀ (n : Nat) (x : WalletCallState), w.calls[n]? = some x → x.caller ≠ i →
    w'.calls[n]? = some x

/-- An action that leaves the journal, the wallet calls and the books alone. -/
theorem Move.of_same (hday : OneDay w w') (hrows : w'.walletCalls = w.walletCalls)
    (hcalls : w'.calls = w.calls) (hbook : w'.book = w.book) : Move i w w' :=
  ⟨fun h => h.of_same hday hrows hcalls hbook, fun _ _ hx _ => hcalls ▸ hx⟩

theorem Move.refl (i : Nat) (w : World) : Move i w w := .of_same rfl rfl rfl rfl

/-- What call `i` may rely on: nobody else touches its wallet calls. -/
def Rely (i : Nat) (w w' : World) : Prop := ∀ (n : Nat) (x : WalletCallState),
  w.calls[n]? = some x → x.caller = i → w'.calls[n]? = some x

/-- The rules for call `i`. -/
def rules (i : Nat) : Rules World := ⟨Sound, Permit, Rely i, Move i⟩

/-- Call `i` may go on with a program. -/
abbrev Walk {α : Type} (i : Nat) (p : Action α) (Q : α → World → Prop) (w : World) : Prop :=
  Go (rules i) i p Q w

/-- Wallet call `n` of call `i` is in a phase. -/
def At (i n : Nat) (phase : Phase) (w : World) : Prop :=
  ∃ x, w.calls[n]? = some x ∧ x.caller = i ∧ x.phase = phase

theorem At.rely {phase : Phase} (h : At i n phase w) (hr : Rely i w w') : At i n phase w' := by
  obtain ⟨x, hx, hi, hp⟩ := h
  exact ⟨x, hr n x hx hi, hi, hp⟩

/-- The wallet calls of the others stay as they are when one of call `i` goes on. -/
theorem enter_others {phase : Phase} (hx : w.calls[n]? = some x) (hi : x.caller = i)
    (h : w.calls[m]? = some x') (hi' : x'.caller ≠ i) :
    (w.enter n phase).calls[m]? = some x' := by
  have hne : m ≠ n := by
    rintro rfl
    obtain rfl : x = x' := Option.some.inj (hx.symm.trans h)
    exact hi' hi
  exact (enter_of_ne phase hx hne).trans h

/-- What the condition says of a wallet call that comes to another phase. -/
theorem Heard.enter {phase : Phase} (h : Heard w (w.enter n phase)) (hx : w.calls[n]? = some x)
    (hrow : x.row.isSome = true) (hne : x.request.endpoint ≠ .rollback) :
    Taken w n x.phase (some phase) := by
  have htaken := h.calls n x hx hrow hne
  rwa [enter_self phase hx] at htaken

/-- Drawing an identifier. -/
theorem newUuid_go {use : UuidUse} : Walk i (newUuid use) (fun _ _ => True) w :=
  Go.request fun _ _ _ _ => ⟨.of_same rfl rfl rfl rfl, fun _ => trivial⟩

/-- Inserting a journal row. -/
theorem createWalletCall_go {req : WalletRequest} {audit : AuditContext}
    (hreq : req.endpoint = .rollback → req.amountMicro = none) :
    Walk i (createWalletCall req audit) (fun n w' => At i n .opened w') w := by
  refine Go.lift fun w₁ _ _ c n w₂ hrun _ => ?_
  dsimp only at hrun
  split at hrun
  · obtain ⟨rfl, rfl⟩ := Prod.mk.inj (Option.some.inj hrun)
    refine ⟨⟨fun hw => hw.createCall hreq (.inl ⟨rfl, rfl⟩), fun k y hy _ => ?_⟩,
      fun _ => ⟨_, Table.getElem?_concat_length _ _, rfl, rfl⟩⟩
    exact Table.getElem?_concat_of_some hy
  · obtain ⟨rfl, rfl⟩ := Prod.mk.inj (Option.some.inj hrun)
    refine ⟨⟨fun hw => hw.createCall hreq (.inr ⟨_, rfl, rfl, ?_⟩), fun k y hy _ => ?_⟩,
      fun _ => ⟨_, Table.getElem?_concat_length _ _, rfl, rfl⟩⟩
    · exact ⟨rfl, rfl, rfl, rfl, rfl, fun _ => rfl⟩
    · exact Table.getElem?_concat_of_some hy

/-- Handing a request over. -/
theorem handOver_go (h : At i n .opened w) :
    Walk i (handOver n) (fun _ w' => At i n .awaiting w') w := by
  refine Go.modify fun w₁ hr _ _ => ?_
  obtain ⟨x, hx, hi, hp⟩ := h.rely hr
  refine ⟨⟨fun hw => hw.enter hx ?_ (fun hj => nomatch hj) (fun hl => nomatch hl)
      (fun _ ht => nomatch ht), fun m y hy hy' => enter_others hx hi hy hy'⟩,
    fun _ => ⟨_, enter_self _ hx, hi, rfl⟩⟩
  rw [hp]
  exact fun hj => nomatch hj

/-- A caller is told a status. -/
theorem move_told {status : RsStatus} (h : At i n .awaiting w)
    (hp : Permit w (w.enter n (.told status))) : Move i w (w.enter n (.told status)) := by
  obtain ⟨x, hx, hi, hphase⟩ := h
  refine ⟨fun hw => hw.enter hx ?_ (fun hj => nomatch hj) (fun hl => nomatch hl) ?_,
    fun m y hy hy' => enter_others hx hi hy hy'⟩
  · rw [hphase]
    exact fun hj => nomatch hj
  · rintro _ ⟨⟩ hrow hne
    have htaken := hp.2.enter hx hrow hne
    rwa [hphase] at htaken

/-- What a caller was told. -/
theorem at_told {status : RsStatus} (h : At i n .awaiting w) :
    At i n (.told status) (w.enter n (.told status)) := by
  obtain ⟨x, hx, hi, -⟩ := h
  exact ⟨_, enter_self _ hx, hi, rfl⟩

/-- Waiting for the answer. -/
theorem awaitReply_go {req : WalletRequest} (h : At i n .awaiting w) :
    Walk i (awaitReply req n) (fun res w' => At i n (.told res.status) w') w := by
  refine Go.lift fun w₁ hr _ c res w₂ hrun hp => ?_
  have h₁ := h.rely hr
  split at hrun
  · split at hrun
    · split at hrun
      · obtain ⟨rfl, rfl⟩ := Prod.mk.inj (Option.some.inj hrun)
        exact ⟨move_told h₁ hp, fun _ => at_told h₁⟩
      · cases hrun
    · cases hrun
  · obtain ⟨rfl, rfl⟩ := Prod.mk.inj (Option.some.inj hrun)
    exact ⟨move_told h₁ hp, fun _ => at_told h₁⟩
  · obtain ⟨rfl, rfl⟩ := Prod.mk.inj (Option.some.inj hrun)
    exact ⟨move_told h₁ hp, fun _ => at_told h₁⟩
  · cases hrun

/-- An answer does not get onto the journal: then nothing that counts was booked. -/
theorem move_lost {status : RsStatus} (hx : w.calls[n]? = some x) (hi : x.caller = i)
    (hst : x.phase = .told status) (hp : Permit w (w.enter n .lost)) :
    Move i w (w.enter n .lost) := by
  refine ⟨fun hw => hw.enter hx ?_ (fun hj => nomatch hj) (fun _ b hb hbn => ?_)
    (fun _ ht => nomatch ht), fun m y hy hy' => enter_others hx hi hy hy'⟩
  · rw [hst]
    exact fun hj => nomatch hj
  · by_contra hne
    obtain ⟨y, hy, hby⟩ := hw.booked b hb
    rw [hbn] at hy
    obtain rfl : x = y := Option.some.inj (hx.symm.trans hy)
    have hmoney : x.request.endpoint ≠ .rollback := hby.endpoint ▸ hne
    have hrow := (hby.heard hne).2.1
    have hok := (hw.told n x status hx hst hrow hmoney).mpr ⟨b, hb, hbn⟩
    have htaken := hp.2.enter hx hrow hmoney
    rw [hst] at htaken
    exact htaken hok

/-- Noting the answer. -/
theorem journalAnswer_go {status : RsStatus} (h : At i n (.told status) w) :
    Walk i (journalAnswer n status) (fun _ _ => True) w := by
  refine Go.lift fun w₁ hr _ c _ w₂ hrun hp => ?_
  obtain ⟨x, hx, hi, hst⟩ := h.rely hr
  split at hrun
  · obtain rfl := congrArg Prod.snd (Option.some.inj hrun)
    exact ⟨move_lost hx hi hst hp, fun _ => trivial⟩
  · rename_i id hid
    have hrow : x.row = some id := by simpa [hx] using hid
    split at hrun
    · obtain rfl := congrArg Prod.snd (Option.some.inj hrun)
      exact ⟨move_lost hx hi hst hp, fun _ => trivial⟩
    · obtain rfl := congrArg Prod.snd (Option.some.inj hrun)
      exact ⟨⟨fun hw => hw.journal hx hrow hst, fun m y hy hy' => enter_others hx hi hy hy'⟩,
        fun _ => trivial⟩

/-- **One wallet call.** -/
theorem invoke_go {req : WalletRequest} {audit : AuditContext}
    (hreq : req.endpoint = .rollback → req.amountMicro = none) :
    Walk i (invoke req audit) (fun _ _ => True) w := by
  refine Go.bind_iff.mpr (Go.mono (Q := fun _ _ => True)
    (Go.lift fun w₁ _ _ c _ w₂ hrun _ => ?_) fun allow w _ => ?_)
  · obtain ⟨-, rfl⟩ := Prod.mk.inj (Option.some.inj hrun)
    exact ⟨.refl i w₁, fun _ => trivial⟩
  · cases allow with
    | false => trivial
    | true =>
        refine Go.bind_iff.mpr ((createWalletCall_go hreq).mono fun n w h => ?_)
        refine Go.bind_iff.mpr ((handOver_go h).mono fun _ w h => ?_)
        refine Go.bind_iff.mpr ((awaitReply_go h).mono fun res w h => ?_)
        exact Go.bind_iff.mpr ((journalAnswer_go h).mono fun _ _ _ => trivial)

/-- An action on the jobs alone. -/
theorem jobs_go {f : World → List PendingWalletJob} {Q : Unit → World → Prop}
    (hQ : ∀ w, Q () w) :
    Walk i (Prog.modify fun w => { w with jobs := f w }) Q w :=
  Go.modify fun _ _ _ _ => ⟨.of_same rfl rfl rfl rfl, fun _ => hQ _⟩

/-- **Taking the stake of a bet.** -/
theorem takeStake_go {b : Wager} : Walk i (takeStake b) (fun _ _ => True) w := by
  refine Go.bind_iff.mpr (newUuid_go.mono fun txUuid w _ => ?_)
  refine Go.bind_iff.mpr (newUuid_go.mono fun requestUuid w _ => ?_)
  have hreq : WalletEndpoint.bet ≠ .rollback := fun he => nomatch he
  refine Go.bind_iff.mpr ((invoke_go fun he => absurd he hreq).mono fun res w _ => ?_)
  split
  · trivial
  · refine Go.bind_iff.mpr (newUuid_go.mono fun requestUuid w _ => ?_)
    refine Go.bind_iff.mpr (newUuid_go.mono fun transactionUuid w _ => ?_)
    exact jobs_go fun _ => trivial

/-- **Crediting a winning bet.** -/
theorem payWin_go {b : Wager} {betTransactionUuid : Uuid} {payoutMicro : Int} :
    Walk i (payWin b betTransactionUuid payoutMicro) (fun _ _ => True) w := by
  refine Go.bind_iff.mpr (newUuid_go.mono fun winTxUuid w _ => ?_)
  refine Go.bind_iff.mpr (newUuid_go.mono fun requestUuid w _ => ?_)
  have hreq : WalletEndpoint.win ≠ .rollback := fun he => nomatch he
  refine Go.bind_iff.mpr ((invoke_go fun he => absurd he hreq).mono fun res w _ => ?_)
  split
  · trivial
  · exact jobs_go fun _ => trivial

/-- The rollback of a job names no amount. -/
theorem request_nameless {job : PendingWalletJob} {req : WalletRequest} (h : job.request = some req)
    (he : req.endpoint = .rollback) : req.amountMicro = none := by
  unfold PendingWalletJob.request at h
  split at h
  · rename_i hwin _ _ _
    obtain rfl := Option.some.inj h
    exact nomatch hwin.symm.trans he
  · obtain rfl := Option.some.inj h
    rfl
  · rename_i hbet _ _
    obtain rfl := Option.some.inj h
    exact nomatch hbet.symm.trans he
  · obtain rfl := Option.some.inj h
    rfl
  · cases h

/-- The wallet call of a job. -/
theorem callWallet_go {job : PendingWalletJob} : Walk i (callWallet job) (fun _ _ => True) w := by
  unfold callWallet
  split
  · trivial
  · rename_i req hreq
    exact Go.bind_iff.mpr ((invoke_go (request_nameless hreq)).mono fun _ _ _ => trivial)

/-- **One run of one job.** -/
theorem runJob_go {jobId : Nat} : Walk i (runJob jobId) (fun _ _ => True) w := by
  refine Go.bind_iff.mpr (Go.mono (Q := fun _ _ => True) (Go.request fun w₁ _ _ _ => ?_)
    fun locked w _ => ?_)
  · split
    · exact ⟨.of_same rfl rfl rfl rfl, fun _ => trivial⟩
    · exact ⟨.refl i w₁, fun _ => trivial⟩
  · cases locked with
    | false => trivial
    | true =>
        refine Go.bind_iff.mpr (Go.mono (Q := fun _ _ => True)
          (Go.query (.refl i) fun _ _ _ => trivial) fun job w _ => ?_)
        split
        · trivial
        · refine Go.bind_iff.mpr (Go.mono (Q := fun _ _ => True)
            (Go.lift fun w₁ _ _ c _ w₂ hrun _ => ?_) fun adapter w _ => ?_)
          · obtain ⟨-, rfl⟩ := Prod.mk.inj (Option.some.inj hrun)
            exact ⟨.refl i w₁, fun _ => trivial⟩
          · split
            · exact jobs_go fun _ => trivial
            · refine Go.bind_iff.mpr (callWallet_go.mono fun status w _ => ?_)
              split
              · exact jobs_go fun _ => trivial
              · exact jobs_go fun _ => trivial

/-- **One poll of the queue.** -/
theorem tick_go : Walk i tick (fun _ _ => True) w := by
  refine Go.bind_iff.mpr (Go.mono (Q := fun _ _ => True) (Go.lift fun w₁ _ _ c _ w₂ hrun _ => ?_)
    fun jobs w _ => Go.each (fun _ _ => True) trivial (fun job jobs w _ => runJob_go)
      fun _ _ => trivial)
  split at hrun
  · dsimp only at hrun
    split at hrun
    · obtain ⟨-, rfl⟩ := Prod.mk.inj (Option.some.inj hrun)
      exact ⟨.refl i w₁, fun _ => trivial⟩
    · cases hrun
  · cases hrun

/-! ## Runs -/

/-- What happens outside keeps the invariant, as far as everything is heard of. -/
theorem Sound.outside {x : Outside} (h : Sound w) (hp : Permit w w')
    (hw : w.outside x = some w') : Sound w' := by
  cases x with
  | elapse ms =>
      obtain rfl := Option.some.inj hw
      exact h.of_same hp.1 rfl rfl rfl
  | deliver n v message =>
      rcases deliver_cases hw with rfl | ⟨x, uuid, amount, hx, huuid, hnew, hmoves, rfl⟩
      · exact h.of_same rfl rfl rfl rfl
      · have hheard : Heard w (w.booking n x.request uuid amount) := ⟨hp.2.calls, hp.2.books⟩
        exact (h.book hx huuid hnew hmoves hheard).of_same rfl rfl rfl rfl

/-- What happens outside leaves the wallet calls alone. -/
theorem outside_calls {x : Outside} (hw : w.outside x = some w') : w'.calls = w.calls := by
  cases x with
  | elapse ms =>
      obtain rfl := Option.some.inj hw
      rfl
  | deliver n v message =>
      rcases deliver_cases hw with rfl | ⟨x, uuid, amount, -, -, -, -, rfl⟩
      · rfl
      · rfl

/-- **The rules of all calls fit together.** -/
def conduct : Discipline ledgers Orderly where
  inv := Sound
  permit _ _ := Permit
  envPermit _ := Permit
  envFits _ _ _ _ := True
  compat _ _ := True
  rely i _ := Rely i
  guar i _ := Move i
  permit_of h _ := h
  envPermit_of h := h
  envFits_of _ _ _ _ := trivial
  compat_of _ _ _ _ _ := ⟨trivial, trivial⟩
  rely_refl _ _ _ := fun _ _ h _ => h
  rely_trans _ _ _ _ _ h h' := fun m a ha hi => h' m a (h m a ha hi) hi
  guar_inv hw _ h := h.sound hw
  env_inv hw hp h := hw.outside hp h
  guar_rely hij _ _ _ h := fun m a ha hi => h.others m a ha (hi ▸ hij)
  env_rely _ _ _ h _ := fun m a ha _ => (outside_calls h) ▸ ha
  code_go {p k q} _ _ _ := by
    cases k with
    | takeStake b => exact takeStake_go
    | payWin b betTransactionUuid payoutMicro => exact payWin_go
    | tick => exact tick_go

/-- Nothing was called or booked yet. -/
theorem initial_sound (now : Millis) : Sound (initial now).world :=
  ⟨(fun _ _ _ h => nomatch h), (fun _ _ _ _ _ h => nomatch h), (fun _ h => nomatch h),
    (fun _ h => nomatch h), (fun _ h => nomatch h), (fun _ _ _ _ h => nomatch h),
    (fun _ _ _ h => nomatch h), fun _ _ _ _ _ => rfl⟩

/-- **When no wallet call is under way, the totals are what was booked.** -/
theorem Sound.matches (h : Sound w) (hquiet : w.Quiet) : w.Matches := by
  have hmoney : ∀ endpoint operatorId currency date, endpoint ≠ .rollback →
      Table.total (counts endpoint operatorId currency date) (fun r => r.amountMicro.getD 0)
        w.walletCalls = w.bookedTotal endpoint operatorId currency date := by
    intro endpoint operatorId currency date hne
    refine (h.sums endpoint operatorId currency date hne).trans (Table.total_congr fun b hb => ?_)
    obtain ⟨x, hx, hby⟩ := h.booked b hb
    by_cases hbe : b.endpoint = endpoint
    · have hphase : x.phase = .journalled := by
        rcases hquiet x (List.mem_of_getElem? hx) with hp | hp
        · exact hp
        · exact absurd hp (hby.heard (hbe ▸ hne)).2.2
      simp [World.credited, World.noted, hx, hphase]
    · simp [World.credited, moved, hbe]
  refine ⟨fun operatorId currency date => hmoney _ _ _ _ (fun he => nomatch he),
    fun operatorId currency date => hmoney _ _ _ _ (fun he => nomatch he),
    fun operatorId currency date => ?_⟩
  -- both sides are nothing
  have hours : Table.total (counts .rollback operatorId currency date)
      (fun r => r.amountMicro.getD 0) w.walletCalls = 0 := by
    refine Table.total_eq_zero fun r hr hc => ?_
    have he : r.endpoint = .rollback := (of_decide_eq_true hc).1
    rw [h.refunds r hr he]
    rfl
  have htheirs : w.bookedTotal .rollback operatorId currency date = 0 := by
    refine Table.total_eq_zero fun b hb hc => ?_
    obtain ⟨x, -, hby⟩ := h.booked b hb
    exact hby.reversal (of_decide_eq_true hc).1
  exact hours.trans htheirs.symm

/-- **Daily totals match the operator**: in every run of stakes, wins and polls of the queue within
one day, with timeouts, lost and repeated requests and duplicate answers, in which a stake or a win is
booked only while its caller waits and there is a row for it, in which a caller takes the answer
`RS_OK` exactly when its request was booked and then notes it, and in which nothing is reversed, the
totals of every operator, currency and day are what that operator booked, whenever no wallet call is
under way. -/
theorem totals_match {now : Millis} (h : ledgers.Run Orderly (initial now) p) :
    ledgers.Run (fun _ _ q => q.world.Quiet → q.world.Matches) (initial now) p := by
  have hok : conduct.Ok (initial now) := Discipline.ok_of_no_tasks (initial_sound now)
  induction h with
  | start => exact .start
  | @step q r e hrun hs hA ih =>
      have hr : Sound r.world := ((hok.run hrun).step hs hA).1.inv
      exact .step e ih hs hr.matches

namespace Sample

/-- A bet of 100. -/
def wager : Wager := ⟨0, 0, 0, 0, .named "player", 0, 0, 100⟩

/-- The stake that the wager is paid for with. -/
def stake : Uuid := ⟨.stake, 0, 0⟩

/-- Call `i` runs `k` actions about which nothing is special. -/
def runs (i k : Nat) : List Happening := List.replicate k (.run i .ok)

/-- The operator carries a request out. -/
def accepts : Verdict := ⟨true, .ok, none⟩

/-- A stake is booked, and the answer is taken and noted. -/
def staked : List Happening :=
  .call (.takeStake wager) :: runs 0 5 ++
    [.env (.deliver 0 accepts none), .run 0 (.reply 0), .run 0 .ok]

/-- The credit of 250 times out before the operator has seen it, and is queued. -/
def unseen : List Happening :=
  .call (.payWin wager stake 250) :: runs 1 5 ++ .run 1 .timeout :: runs 1 2

/-- A poll tries the credit again, which gets no row of its own; the operator refuses it. -/
def refused : List Happening :=
  .call .tick :: .run 2 (.order [0]) :: runs 2 6 ++
    [.env (.deliver 2 ⟨false, .unknown, none⟩ none), .run 2 (.reply 1), .run 2 .ok, .run 2 .ok]

/-- Two seconds later a poll tries it once more, and the operator carries it out. -/
def credited : List Happening :=
  .env (.elapse 2000) :: .call .tick :: .run 3 (.order [0]) :: runs 3 6 ++
    [.env (.deliver 3 accepts none), .run 3 (.reply 2), .run 3 .ok, .run 3 .ok]

/-- A credit of 250 is booked while its caller gives up, and is queued. -/
def missed : List Happening :=
  .call (.payWin wager stake 250) :: runs 0 5 ++
    .env (.deliver 0 accepts none) :: .run 0 .timeout :: runs 0 2

/-- A poll tries it again, and the operator says that it has it already. -/
def duplicate : List Happening :=
  .call .tick :: .run 1 (.order [0]) :: runs 1 6 ++
    [.env (.deliver 1 ⟨false, .duplicateTransaction, none⟩ none), .run 1 (.reply 1), .run 1 .ok,
      .run 1 .ok]

end Sample

/-- A stake of 100 and a win of 250 that is credited by the second retry. -/
theorem totals_match_retried : ∃ p, ledgers.Run Orderly (initial 0) p ∧
    (p.world.bookedTotal .bet 0 0 0, p.world.bookedTotal .win 0 0 0) = (100, 250) ∧
      ledgers.Run (fun _ _ q => q.world.Quiet → q.world.Matches) (initial 0) p := by
  have h : ((ledgers.exec Orderly (initial 0)
      (Sample.staked ++ Sample.unseen ++ Sample.refused ++ Sample.credited)).map
        fun p => (p.world.bookedTotal .bet 0 0 0, p.world.bookedTotal .win 0 0 0)) =
          some (100, 250) := by
    decide +kernel
  obtain ⟨p, hp, hv⟩ := System.Run.of_exec_map h
  exact ⟨p, hp, hv, totals_match hp⟩

/-- **A win is missing from the totals**: its credit was booked while the caller gave up, and the retry
was told that the operator has it already. Every call has ended, and no job is open. -/
theorem totals_short : ∃ p, ledgers.Run (fun p _ q => OneDay p.world q.world) (initial 0) p ∧
    (p.tasks.all fun t => t.prog.ended) = true ∧
      (p.world.jobs.all fun j => j.completedAt.isSome) = true ∧ p.world.Quiet ∧
        ¬ p.world.Matches := by
  have h : ((ledgers.exec (fun p _ q => p.world.now = q.world.now) (initial 0)
      (Sample.missed ++ Sample.duplicate)).map fun p =>
        (p.tasks.all (fun t => t.prog.ended), p.world.jobs.all (fun j => j.completedAt.isSome),
          decide p.world.Quiet, (p.world.computeDailyTotals 0 0 0).winsAmountMicro,
          p.world.bookedTotal .win 0 0 0)) = some (true, true, true, 0, 250) := by
    decide +kernel
  obtain ⟨p, hp, hv⟩ := System.Run.of_exec_map h
  simp only [Prod.mk.injEq] at hv
  obtain ⟨htasks, hjobs, hquiet, hours, htheirs⟩ := hv
  have hday : ledgers.Run (fun p _ q => OneDay p.world q.world) (initial 0) p :=
    hp.mono fun _ _ _ hnow => congrArg AuditChain.startOfDay hnow.symm
  refine ⟨p, hday, htasks, hjobs, of_decide_eq_true hquiet, fun hm => ?_⟩
  have hwins := hm.wins 0 0 0
  rw [hours, htheirs] at hwins
  cases hwins

end YantraRgs.Reconciliation
