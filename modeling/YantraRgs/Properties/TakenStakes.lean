import YantraRgs.Conduct.Stakes
import YantraRgs.Properties.RolledBackDebits

/-! # Nobody plays without paying

Whatever is under way at once, and however the messages are delayed, repeated or lost: a bet that was
accepted, settled, voided or left failed has its stake in the operator's ledger, and the ledger has no
other stakes. So no win is paid for a bet whose stake was not taken.

* **`LedgerEntry.IsStake`** — the ledger entry that takes the stake of a bet.
* **`Staked`** — the invariant.
* **`stakes_taken`** — the property in every state reached. -/

namespace YantraRgs

open Await

/-- **The ledger entry that takes the stake of a bet**, from the player of the bet. -/
structure LedgerEntry.IsStake (e : LedgerEntry) (b : Bet) : Prop where
  kind : e.kind = .bet
  transaction : e.transactionUuid = b.betTransactionUuid
  player : e.playerRef = b.playerRef
  amount : e.amountMicro = b.amountMicro

/-- **The ledger agrees with the bets**: the stake of every bet that was taken is booked, every stake is
that of a bet, every win refers to a stake that is booked, and no transaction is booked twice. -/
structure StakesTaken (w : World) : Prop where
  taken : ∀ b ∈ w.bets, b.status.taken = true → ∃ e ∈ w.book, e.IsStake b
  stakes : ∀ e ∈ w.book, e.kind = .bet → ∃ b ∈ w.bets, e.IsStake b
  wins : ∀ e ∈ w.book, e.kind = .win → ∃ b ∈ w.bets,
    e.referenceTransactionUuid = some b.betTransactionUuid ∧ ∃ e' ∈ w.book, e'.IsStake b
  once : w.book.names.Nodup

section Runs

variable {env : Env} {p q : State} {x : Happening}

/-- A call that places a bet. -/
def Call.PlacesBet (k : Call) : Prop := ∃ e params, k = .placeBet e params

theorem anything_meets (env : Env) : Meets (.free env) Anything where
  permit _ _ := .of_free id id id id
  engines h := h.elim
  countedUp h := h.elim
  fit _ := ⟨fun h => h.elim, fun h => h.elim⟩
  closed h := h.elim
  crashes h := h.elim
  configs h := h.elim
  verifies h := h.elim
  focus _ _ h := nomatch h

/-- The terms of a bet do not change. -/
theorem LedgerEntry.IsStake.later {e : LedgerEntry} {b b' : Bet} (h : e.IsStake b) (hl : b.Later b') :
    e.IsStake b' where
  kind := h.kind
  transaction := h.transaction.trans hl.betTransactionUuid.symm
  player := h.player.trans (congrArg Prod.fst hl.terms).symm
  amount := h.amount.trans (congrArg (fun t => t.2.2.2.1) hl.terms).symm

/-- **The invariant**: the debits on the wire ask for stakes of bets, and those that the operator reported
as taken are booked. -/
structure Staked (env : Env) (p : State) : Prop where
  addressed : Addressed p.world
  booked : Booked p.world
  placing : Watched (stakeRules env) Call.PlacesBet p
  placed : ∀ b ∈ p.world.bets, ∃ k ∈ p.calls[b.betTransactionUuid.owner]?, k.PlacesBet
  billed : ∀ s ∈ p.world.wire, s.request.endpoint = .bet → ∃ b ∈ p.world.bets, s.request.Bills b
  replied : ∀ r ∈ p.world.replies, r.sent < p.world.wire.length
  answered : ∀ r ∈ p.world.replies, isSuccessOrDuplicate r.status = true →
    ∀ s, p.world.wire[r.sent]? = some s → s.request.endpoint = .bet →
      ∀ u, s.request.transactionUuid = some u → p.world.book.booked u = true
  taken : ∀ b ∈ p.world.bets, b.status.taken = true → p.world.book.booked b.betTransactionUuid = true
  stakes : ∀ e ∈ p.world.book, e.kind = .bet → ∃ b ∈ p.world.bets, e.IsStake b

theorem Staked.initial (operators : List OperatorRow) (credentials : List OperatorCredential)
    (gameConfigs : List OperatorGameConfig) :
    Staked env (State.initial operators credentials gameConfigs) where
  addressed := ⟨fun _ h => (nomatch h), fun _ h => (nomatch h), fun _ h => (nomatch h)⟩
  booked := ⟨List.nodup_nil, fun _ h => (nomatch h)⟩
  placing _ _ h := nomatch h
  placed _ h := nomatch h
  billed _ h := nomatch h
  replied _ h := nomatch h
  answered _ h := nomatch h
  taken _ h := nomatch h
  stakes _ h := nomatch h

/-! ## What one step does -/

/-- **A step keeps to the guarantee about stakes**: the bets of a call that places none are none. -/
theorem Staked.guar (h : Staked env p) (hs : (server env).step p x = some q)
    (hx : Stepped (.free env) p x q) (hsound : Sound (.free env) p.world) :
    StakeGuar p.world q.world := by
  cases hx with
  | move i c t hrun ht _ _ hm =>
      subst hrun
      by_cases hk : t.call.PlacesBet
      · exact h.placing.guar hs ht hk (.refl _) hsound trivial
      · refine hm.stakes hsound fun b hb hi => hk ?_
        obtain ⟨k, hcall, hplaces⟩ := h.placed b hb
        rw [hi, Pool.calls, List.getElem?_map, ht] at hcall
        exact Option.some.inj hcall ▸ hplaces
  | outer y _ hy =>
      have ho := outside_outer hy
      exact ⟨fun s hs => .inl (ho.wire ▸ hs), fun hb ht => .inl ⟨_, ho.bets ▸ hb, ht⟩⟩
  | stay hw => exact hw ▸ ⟨fun s hs => .inl hs, fun hb ht => .inl ⟨_, hb, ht⟩⟩

/-- What is booked stays booked. -/
theorem Stepped.booked {P : Policy} {u : Uuid} (hx : Stepped P p x q)
    (hb : p.world.book.booked u = true) : q.world.book.booked u = true := by
  cases hx with
  | move i c t _ _ _ _ hm => exact hm.book_eq ▸ hb
  | outer y _ hy =>
      rcases outside_book hy with ⟨_, _, _, _, _, -, -, -, hbook, hq⟩ | ⟨hbook, -⟩
      · rw [hq]
        exact (Ledger.booking_of_process hbook).booked hb
      · exact hbook ▸ hb
  | stay hw => exact hw ▸ hb

/-- Where a ledger entry comes from: it was there, perhaps not reversed yet, or a request on the wire
books it. -/
theorem Stepped.entry_origin {P : Policy} {e : LedgerEntry} (hx : Stepped P p x q)
    (he : e ∈ q.world.book) :
    (∃ e₀ ∈ p.world.book, e = e₀ ∨ e = { e₀ with rolledBack := true }) ∨
      ∃ s ∈ p.world.wire, s.request.endpoint = e.kind.endpoint ∧
        s.request.transactionUuid = some e.transactionUuid ∧ s.request.playerRef = e.playerRef ∧
          s.request.amountMicro.getD 0 = e.amountMicro := by
  cases hx with
  | move i c t _ _ _ _ hm => exact .inl ⟨e, hm.book_eq ▸ he, .inl rfl⟩
  | outer y _ hy =>
      rcases outside_book hy with ⟨sent, v, message, s, book, -, -, hs, hbook, hq⟩ | ⟨hbook, -⟩
      · rw [hq] at he
        rcases (Ledger.booking_of_process hbook).mem he with ⟨e₀, he₀, heq⟩ | ⟨kind, uuid, hend, hu, rfl⟩
        · exact .inl ⟨e₀, he₀, heq.imp_right And.left⟩
        · exact .inr ⟨s, List.mem_of_getElem? hs, hend, hu, rfl, rfl⟩
      · exact .inl ⟨e, hbook ▸ he, .inl rfl⟩
  | stay hw => exact .inl ⟨e, hw ▸ he, .inl rfl⟩

/-- A step leaves every bet the stake of its entry. -/
theorem Staked.stakes_step (h : Staked env p) (hx : Stepped (.free env) p x q) :
    ∀ e ∈ q.world.book, e.kind = .bet → ∃ b ∈ q.world.bets, e.IsStake b := by
  intro e he hkind
  have hold : (∃ b ∈ p.world.bets, e.IsStake b) := by
    rcases hx.entry_origin he with ⟨e₀, he₀, rfl | rfl⟩ | ⟨s, hs, hend, hu, hplayer, hamount⟩
    · exact h.stakes e he₀ hkind
    · obtain ⟨b, hb, hstake⟩ := h.stakes e₀ he₀ hkind
      exact ⟨b, hb, hstake.kind, hstake.transaction, hstake.player, hstake.amount⟩
    · obtain ⟨b, hb, hbills⟩ := h.billed s hs (by rw [hend, hkind]; rfl)
      refine ⟨b, hb, hkind, ?_, ?_, ?_⟩
      · exact Option.some.inj (hu.symm.trans hbills.transaction)
      · exact hplayer.symm.trans hbills.player
      · rw [← hamount, hbills.amount]
        rfl
  obtain ⟨b, hb, hstake⟩ := hold
  obtain ⟨b', hb', hl⟩ := hx.later.mem_bets hb
  exact ⟨b', hb', hstake.later hl⟩

/-- A debit that the operator reports as taken is booked. -/
theorem Staked.answered_step (h : Staked env p) (hx : Stepped (.free env) p x q) {r : Reply}
    (hr : r ∈ q.world.replies) (hok : isSuccessOrDuplicate r.status = true) {s : Sent}
    (hs : q.world.wire[r.sent]? = some s) (hend : s.request.endpoint = .bet) {u : Uuid}
    (hu : s.request.transactionUuid = some u) : q.world.book.booked u = true := by
  rcases hx.reply_origin hr with hr | ⟨v, message, s', book, -, hs', hbook, hstatus, hq⟩
  · exact hx.booked (h.answered r hr hok s (hx.wire_old (h.replied r hr) hs) hend u hu)
  · obtain rfl := Option.some.inj ((hx.later.wire hs').symm.trans hs)
    rw [hq]
    exact Ledger.booked_of_success hbook hend hu (hstatus ▸ hok)

/-- The bets of a step come from calls that place bets. -/
theorem Staked.placed_step (h : Staked env p) (hs : (server env).step p x = some q)
    (hx : Stepped (.free env) p x q) {b : Bet} (hb : b ∈ q.world.bets) :
    ∃ k ∈ q.calls[b.betTransactionUuid.owner]?, k.PlacesBet := by
  obtain ⟨rest, hrest⟩ := System.step_calls_grow hs
  have hkept : ∀ {n : Nat} {k : Call}, p.calls[n]? = some k → q.calls[n]? = some k := fun hk => by
    rw [← hrest, List.getElem?_append_left (List.getElem?_eq_some_iff.mp hk).1, hk]
  obtain ⟨n, hn⟩ := List.mem_iff_getElem?.mp hb
  have hold : ∀ b₀ ∈ p.world.bets, b₀.betTransactionUuid = b.betTransactionUuid →
      ∃ k ∈ q.calls[b.betTransactionUuid.owner]?, k.PlacesBet := fun b₀ hb₀ heq => by
    obtain ⟨k, hk, hplaces⟩ := h.placed b₀ hb₀
    exact ⟨k, heq ▸ hkept hk, hplaces⟩
  cases hx with
  | move i c t _ ht _ _ hm =>
      rcases hm.bet_origin hn with ⟨b₀, hb₀, rfl | ⟨hstep, -⟩⟩ | ⟨-, hnew⟩
      · exact hold _ (List.mem_of_getElem? hb₀) rfl
      · exact hold b₀ (List.mem_of_getElem? hb₀) hstep.later.betTransactionUuid.symm
      · refine ⟨t.call, ?_, hnew.placing⟩
        rw [hnew.owner]
        exact hkept (by rw [Pool.calls, List.getElem?_map, ht]; rfl)
  | outer y _ hy => exact hold b ((outside_outer hy).bets ▸ hb) rfl
  | stay hw => exact hold b (hw ▸ hb) rfl

/-- **A step keeps the invariant.** -/
theorem Staked.step (h : Staked env p) (hs : (server env).step p x = some q)
    (hx : Stepped (.free env) p x q) (hsound : Sound (.free env) p.world)
    (hsound' : Sound (.free env) q.world) : Staked env q := by
  have hguar := h.guar hs hx hsound
  exact {
    addressed := h.addressed.step hsound hx
    booked := h.booked.step hx
    placing := by
      refine h.placing.step hs (fun _ _ w _ => .refl w) (fun _ _ _ _ _ _ hab hbc => hab.trans hbc)
        (fun _ _ _ => ⟨hsound, hsound'⟩) (fun _ _ _ _ _ _ => hx.later) (fun _ _ _ _ _ _ => trivial) ?_
      rintro k - ⟨e, params, hk⟩
      exact code_stakes hk
    placed := fun b hb => h.placed_step hs hx hb
    billed := by
      intro s hmem hend
      rcases hguar.billed s hmem with hmem | hnot | hbilled
      · obtain ⟨b, hb, hbills⟩ := h.billed s hmem hend
        obtain ⟨b', hb', hl⟩ := hx.later.mem_bets hb
        exact ⟨b', hb', hbills.later hl⟩
      · exact absurd hend hnot
      · exact hbilled
    replied := by
      intro r hr
      obtain ⟨s, hs⟩ : ∃ s, p.world.wire[r.sent]? = some s := by
        rcases hx.reply_origin hr with hr | ⟨_, _, s, _, -, hs, -⟩
        · exact ⟨_, List.getElem?_eq_getElem (h.replied r hr)⟩
        · exact ⟨s, hs⟩
      exact (List.getElem?_eq_some_iff.mp (hx.later.wire hs)).1
    answered := fun r hr hok s hs hend u hu => h.answered_step hx hr hok hs hend hu
    taken := by
      intro b' hb' htaken
      obtain ⟨n, hn⟩ := List.mem_iff_getElem?.mp hb'
      rcases hguar.paid hn htaken with ⟨b, hb, ht⟩ | ⟨r, hr, s, hs, hbills, hok⟩
      · obtain ⟨b'', hb'', hl⟩ := hx.later.bet hb
        obtain rfl := Option.some.inj (hn.symm.trans hb'')
        rw [hl.betTransactionUuid]
        exact hx.booked (h.taken b (List.mem_of_getElem? hb) ht)
      · exact h.answered_step hx hr hok hs hbills.endpoint hbills.transaction
    stakes := h.stakes_step hx }

/-! ## The ledger and the bets -/

/-- A booked stake is that of its bet. -/
theorem Staked.stake_of_booked (h : Staked env p) (hsound : Sound (.free env) p.world) {b : Bet}
    (hb : b ∈ p.world.bets) (hbooked : p.world.book.booked b.betTransactionUuid = true) :
    ∃ e ∈ p.world.book, e.IsStake b := by
  obtain ⟨e, he, hu⟩ := List.mem_map.mp (Ledger.booked_iff.mp hbooked)
  cases hkind : e.kind with
  | bet =>
      obtain ⟨b', hb', hstake⟩ := h.stakes e he hkind
      -- two bets with one stake are one
      obtain ⟨n, hn⟩ := List.mem_iff_getElem?.mp hb
      obtain ⟨m, hm⟩ := List.mem_iff_getElem?.mp hb'
      obtain rfl := hsound.betOwner hn hm (congrArg Uuid.owner (hu.symm.trans hstake.transaction))
      obtain rfl := Option.some.inj (hn.symm.trans hm)
      exact ⟨e, he, hstake⟩
  | win =>
      -- a win has a transaction of its own
      obtain ⟨s, hs, hend, htx, -⟩ := h.booked.source e he
      obtain ⟨-, -, -, -, u, hu', huse⟩ := h.addressed.wins s hs (by rw [hend, hkind]; rfl)
      obtain rfl := Option.some.inj (htx.symm.trans hu')
      rw [hu, hsound.betUse hb] at huse
      cases huse

/-- **The ledger agrees with the bets** where the invariant holds. -/
theorem Staked.stakesTaken (h : Staked env p) (hsound : Sound (.free env) p.world) :
    StakesTaken p.world where
  taken b hb htaken := h.stake_of_booked hsound hb (h.taken b hb htaken)
  stakes := h.stakes
  wins e he hkind := by
    obtain ⟨s, hs, hend, -, href, -⟩ := h.booked.source e he
    obtain ⟨b, hb, href', htaken, -⟩ := h.addressed.wins s hs (by rw [hend, hkind]; rfl)
    exact ⟨b, hb, href.symm.trans href', h.stake_of_booked hsound hb (h.taken b hb htaken)⟩
  once := h.booked.once

end Runs

/-- **Nobody plays without paying.** In every run of any calls in any order, with every message delivered
any number of times or never: the stake of every bet that was accepted is booked at the operator, with
the player and the amount of the bet, every stake that is booked is that of a bet, every win that is
booked refers to a booked stake, and no transaction is booked twice. -/
theorem stakes_taken {env : Env} {p : State} (h : History env Anything p) : StakesTaken p.world := by
  obtain ⟨operators, credentials, gameConfigs, hr⟩ := h
  obtain ⟨hready, hstaked⟩ : Ready (anything_meets env) p ∧ Staked env p := by
    refine hr.invariant (I := fun p => Ready (anything_meets env) p ∧ Staked env p)
      ⟨.initial _ operators credentials gameConfigs, .initial operators credentials gameConfigs⟩ ?_
    rintro p x q hs hA ⟨hready, hstaked⟩
    obtain ⟨hready', hx⟩ := hready.step hs hA
    exact ⟨hready', hstaked.step hs hx hready.ok.inv hready'.ok.inv⟩
  exact hstaked.stakesTaken hready.ok.inv

/-- A dice bet is accepted and wins. -/
theorem stakes_taken_opened : ∃ p, History Sample.site Anything p ∧
    (∃ e ∈ p.world.book, e.kind = .win) ∧ StakesTaken p.world := by
  have h : Sample.shows Anything
      (Sample.opened 0 (.dice .low) .none 13 ++ Sample.run 1 21 ++
        .env (.deliver 1 ⟨true, .ok, some 110⟩ none) :: .run 1 (.reply 1) :: Sample.run 1 10)
      (fun p => p.world.book.any fun e => e.kind = .win) = true := by decide +kernel
  obtain ⟨p, hp, hv⟩ := Sample.history_of_shows h
  simp only [List.any_eq_true, decide_eq_true_eq] at hv
  exact ⟨p, hp, hv, stakes_taken hp⟩

end YantraRgs
