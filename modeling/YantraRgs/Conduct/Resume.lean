import YantraRgs.Conduct.Still

/-! # Resuming unsettled rounds keeps to the rules

The start of an engine takes the rounds of its key that were left unsettled, and in each of them the
bets that are not resolved. While engines of one key do not run together, nobody else touches these
rounds and bets.

* **`Sweep`** — how far the start has come: the bets that are left are as they were, the others are
  recovered.
* **`Resume`** — the invariant of both loops, under any policy.
* **`start_go`** — the start of an engine. -/

namespace YantraRgs

open Await

variable {P : Policy} {i : Nat} {w w' w₀ : World} {env : Env} {e : EngineRef}

/-! ## How far the start has come -/

/-- A bet of a round that was unsettled when the start was called. -/
structure StuckBet (w₀ : World) (key : EngineKey) (id : Nat) (b₀ : Bet) (r₀ : Round) : Prop where
  bet : w₀.bets[id]? = some b₀
  round : w₀.rounds[b₀.roundId]? = some r₀
  stuck : r₀.stuck key = true

/-- An unsettled round of a key is of that key. -/
theorem key_of_stuck {r : Round} {key : EngineKey} (h : r.stuck key = true) : r.key = key := by
  simp only [Round.stuck, decide_eq_true_eq] at h
  cases key
  simp_all [Round.key]

/-- A bet that the start has not come to: its row is as it was, and no win was handed out for it. -/
structure Kept (w₀ w : World) (id : Nat) (b₀ : Bet) : Prop where
  row : w.bets[id]? = some b₀
  handed : ∀ u, w.HandedOut b₀.betTransactionUuid u → w₀.HandedOut b₀.betTransactionUuid u

/-- A bet that the start has dealt with. -/
def Done (env : Env) (w : World) (id : Nat) (r₀ : Round) (b₀ : Bet) : Prop :=
  ∃ b, w.bets[id]? = some b ∧ Recovered env w id r₀ b₀ b ∧ b.status ≠ .accepted

/-- **How far the start has come**: the bets in `todo` are as they were, one bet may be under way,
and all others are recovered. -/
structure Sweep (env : Env) (e : EngineRef) (w₀ : World) (todo : Nat → Prop) (busy : Option (Nat × Bet))
    (w : World) : Prop where
  later : Later w₀ w
  unused : w.Unused e
  old : ∀ {id : Nat} {b : Bet} {r₀ : Round}, w.bets[id]? = some b →
    w₀.rounds[b.roundId]? = some r₀ → r₀.key = e.key → ∃ b₀, w₀.bets[id]? = some b₀
  rounds : ∀ {id : Nat} {r : Round}, w.rounds[id]? = some r → r.key = e.key →
    ∃ r₀, w₀.rounds[id]? = some r₀ ∧ r.outcome = r₀.outcome
  closed : ∀ {id : Nat} {b₀ : Bet} {r₀ : Round}, w₀.bets[id]? = some b₀ →
    w₀.rounds[b₀.roundId]? = some r₀ → r₀.key = e.key → r₀.settled = true →
      w.bets[id]? = some b₀
  kept : ∀ {id : Nat} {b₀ : Bet} {r₀ : Round}, StuckBet w₀ e.key id b₀ r₀ → todo id →
    Kept w₀ w id b₀
  row : ∀ {id : Nat} {b : Bet}, busy = some (id, b) → w.bets[id]? = some b ∧
    ∃ b₀ r₀, StuckBet w₀ e.key id b₀ r₀
  done : ∀ {id : Nat} {b₀ : Bet} {r₀ : Round}, StuckBet w₀ e.key id b₀ r₀ → ¬ todo id →
    (∀ b, busy ≠ some (id, b)) → Done env w id r₀ b₀
  quiet : ∀ {id : Nat} {b₀ : Bet} {r₀ : Round} {endpoint : WalletEndpoint},
    StuckBet w₀ e.key id b₀ r₀ → b₀.Skipped r₀ → w.HasJob endpoint id → w₀.HasJob endpoint id

/-- A win that was queued anew stays queued. -/
theorem Requeued.later {id : Nat} {r₀ : Round} {b : Bet} (hl : Later w w')
    (h : Requeued env w id r₀ b) : Requeued env w' id r₀ b := by
  obtain ⟨hs, config, commissionMicro, payoutMicro, hpays, hj⟩ := h
  exact ⟨hs, config, commissionMicro, payoutMicro, hpays, hl.credited hj⟩

/-- What became of a bet stays so. -/
theorem Recovered.later {id : Nat} {r₀ : Round} {b₀ b : Bet} (hl : Later w w')
    (h : Recovered env w id r₀ b₀ b) : Recovered env w' id r₀ b₀ b where
  cashed := h.cashed
  left := h.left
  accepted ha := (h.accepted ha).imp_right
    (Or.imp (fun hq => hq.later hl) (And.imp_right hl.hasJob))
  failed := h.failed
  owed hf hc ho := (h.owed hf hc ho).imp_right fun hq => hq.later hl
  skipped := h.skipped

/-- The row of a bet of the key, while nobody else touches it. -/
theorem ResumeRely.row (h : ResumeRely e w w') (hl : Later w w') {id : Nat} {b : Bet}
    (hb : w.bets[id]? = some b) (hr : w.RoundOf b.roundId e.key) : w'.bets[id]? = some b := by
  obtain ⟨b', hb', hbl⟩ := hl.bet hb
  have hb'' := h.bets hb' (by rw [hbl.roundId]; exact hl.roundOf hr)
  rw [hb] at hb''
  rw [hb', ← hb'']

/-- The round of a stuck bet is of the key. -/
theorem StuckBet.roundOf {id : Nat} {b₀ : Bet} {r₀ : Round} (h : StuckBet w₀ e.key id b₀ r₀) :
    w₀.RoundOf b₀.roundId e.key := ⟨r₀, h.round, key_of_stuck h.stuck⟩

/-- A bet has one row, and its round one. -/
theorem StuckBet.unique {id : Nat} {b₀ b₁ : Bet} {r₀ r₁ : Round} (h : StuckBet w₀ e.key id b₀ r₀)
    (h' : StuckBet w₀ e.key id b₁ r₁) : b₀ = b₁ ∧ r₀ = r₁ := by
  obtain rfl := Option.some.inj (h.bet.symm.trans h'.bet)
  exact ⟨rfl, Option.some.inj (h.round.symm.trans h'.round)⟩

/-- **Others do not interfere with the start.** -/
theorem Sweep.rely {todo : Nat → Prop} {busy : Option (Nat × Bet)} (h : Sweep env e w₀ todo busy w)
    (hl : Later w w') (hr : ResumeRely e w w') : Sweep env e w₀ todo busy w' where
  later := h.later.trans hl
  unused := hr.unused
  old hb hr₀ hk := by
    obtain ⟨r, hr₁, hrl⟩ := (h.later.trans hl).round hr₀
    exact h.old (hr.bets hb ⟨r, hr₁, hrl.key.trans hk⟩) hr₀ hk
  rounds hr₁ hk := h.rounds (hr.rounds hr₁ hk) hk
  closed hb hr₀ hk hs := hr.row hl (h.closed hb hr₀ hk hs) (h.later.roundOf ⟨_, hr₀, hk⟩)
  kept {_ _ _} hs ht := by
    have hround := h.later.roundOf hs.roundOf
    have hkept := h.kept hs ht
    exact ⟨hr.row hl hkept.row hround, fun u hu => hkept.handed u (hr.handed hkept.row hround hu)⟩
  row hbusy := by
    obtain ⟨hb, b₀, r₀, hs⟩ := h.row hbusy
    refine ⟨hr.row hl hb ?_, b₀, r₀, hs⟩
    obtain ⟨b', hb', hbl⟩ := h.later.bet hs.bet
    rw [hb] at hb'
    obtain rfl := Option.some.inj hb'
    rw [hbl.roundId]
    exact h.later.roundOf hs.roundOf
  done hs ht hbusy := by
    obtain ⟨b, hb, hrec, hne⟩ := h.done hs ht hbusy
    have hround : w.RoundOf b.roundId e.key := by
      obtain ⟨b', hb', hbl⟩ := h.later.bet hs.bet
      rw [hb] at hb'
      obtain rfl := Option.some.inj hb'
      rw [hbl.roundId]
      exact h.later.roundOf hs.roundOf
    exact ⟨b, hr.row hl hb hround, hrec.later hl, hne⟩
  quiet hs hskip hj := by
    obtain ⟨b, hb, hbl⟩ := h.later.bet hs.bet
    exact h.quiet hs hskip (hr.jobs hb (by rw [hbl.roundId]; exact h.later.roundOf hs.roundOf) hj)

/-- Fewer bets may be said to be left, when the others are recovered. -/
theorem Sweep.imp {todo todo' : Nat → Prop} (h : Sweep env e w₀ todo none w)
    (hsub : ∀ id, todo' id → todo id)
    (hdone : ∀ {id b₀ r₀}, StuckBet w₀ e.key id b₀ r₀ → todo id → ¬ todo' id → Done env w id r₀ b₀) :
    Sweep env e w₀ todo' none w where
  later := h.later
  unused := h.unused
  old := h.old
  rounds := h.rounds
  closed := h.closed
  kept hs ht := h.kept hs (hsub _ ht)
  row hb := nomatch hb
  done {id b₀ r₀} hs ht hbusy := by
    by_cases htodo : todo id
    · exact hdone hs htodo ht
    · exact h.done hs htodo hbusy
  quiet := h.quiet

/-- No round is added, and none changes its key or its outcome. -/
def World.SameOutcomes (w w' : World) : Prop :=
  ∀ (id : Nat) (r' : Round), w'.rounds[id]? = some r' →
    ∃ r, w.rounds[id]? = some r ∧ r'.key = r.key ∧ r'.outcome = r.outcome

/-- The row of a round is written, without its key and its outcome. -/
theorem World.SameOutcomes.updateRound (w : World) (id : Nat) {f : Round → Round}
    (hkey : ∀ r, (f r).key = r.key) (hout : ∀ r, (f r).outcome = r.outcome) :
    w.SameOutcomes (w.updateRound id f) := by
  intro n r' hr'
  simp only [World.updateRound, List.getElem?_modify] at hr'
  obtain ⟨r, hr, rfl⟩ := Option.map_eq_some_iff.mp hr'
  refine ⟨r, hr, ?_, ?_⟩ <;> split <;> simp [hkey, hout]

/-- A step of the start itself that writes no bet and hands out no win. -/
theorem Sweep.next {todo : Nat → Prop} {busy : Option (Nat × Bet)} (h : Sweep env e w₀ todo busy w)
    (hl : Later w w') (hun : w'.Unused e) (hb : w'.bets = w.bets) (hj : w'.jobs = w.jobs)
    (hs : w'.wire = w.wire) (hr : w.SameOutcomes w') : Sweep env e w₀ todo busy w' where
  later := h.later.trans hl
  unused := hun
  old hrow := h.old (hb ▸ hrow)
  rounds hr' hk := by
    obtain ⟨r, hr₁, hkey, hout⟩ := hr _ _ hr'
    obtain ⟨r₀, hr₀, hout₀⟩ := h.rounds hr₁ (hkey.symm.trans hk)
    exact ⟨r₀, hr₀, hout.trans hout₀⟩
  closed hrow hr₀ hk hset := hb.symm ▸ h.closed hrow hr₀ hk hset
  kept hst ht := by
    have hkept := h.kept hst ht
    refine ⟨hb.symm ▸ hkept.row, fun u hu => hkept.handed u ?_⟩
    simp only [World.HandedOut, hj, hs] at hu
    exact hu
  row hbusy := by
    obtain ⟨hrow, hst⟩ := h.row hbusy
    exact ⟨hb.symm ▸ hrow, hst⟩
  done hst ht hbusy := by
    obtain ⟨b, hrow, hrec, hne⟩ := h.done hst ht hbusy
    exact ⟨b, hb.symm ▸ hrow, hrec.later hl, hne⟩
  quiet {_ _ _ endpoint} hst hskip hjob := by
    simp only [World.HasJob, hj] at hjob
    exact h.quiet hst hskip hjob

/-- The start takes up a bet, or goes on with it: only the row of that bet is written. -/
theorem Sweep.write {todo : Nat → Prop} {busy : Option (Nat × Bet)} {id : Nat} {b b' b₀ : Bet}
    {r₀ : Round} (h : Sweep env e w₀ todo busy w) (hst : StuckBet w₀ e.key id b₀ r₀)
    (hrow : w.bets[id]? = some b) (hbusy : ∀ n x, busy = some (n, x) → n = id)
    (hround : b'.roundId = b.roundId)
    (hl : Later w { w with bets := w.bets.set id b' }) :
    Sweep env e w₀ (fun n => todo n ∧ n ≠ id) (some (id, b')) { w with bets := w.bets.set id b' } where
  later := h.later.trans hl
  unused := h.unused
  old {n x r} hx hr hk := by
    rcases Table.getElem?_set_cases hx with ⟨rfl, rfl, -⟩ | ⟨-, hx⟩
    · exact h.old hrow (hround ▸ hr) hk
    · exact h.old hx hr hk
  rounds := h.rounds
  closed {n x r} hx hr hk hset := by
    -- the bet that is written is of a round that was unsettled
    have hne : n ≠ id := by
      rintro rfl
      rw [hst.bet] at hx
      obtain rfl := Option.some.inj hx
      rw [hst.round] at hr
      obtain rfl := Option.some.inj hr
      have hopen := hst.stuck
      simp [Round.stuck, hset] at hopen
    rw [Table.getElem?_set_of_ne hne]
    exact h.closed hx hr hk hset
  kept {n x r} hs ht := by
    have hkept := h.kept hs ht.1
    exact ⟨by rw [Table.getElem?_set_of_ne ht.2]; exact hkept.row, hkept.handed⟩
  row {n x} hx := by
    obtain ⟨rfl, rfl⟩ := Prod.mk.inj (Option.some.inj hx)
    exact ⟨Table.getElem?_set_self_of_some hrow, b₀, r₀, hst⟩
  done {n x r} hs ht hb := by
    have hne : n ≠ id := fun he => hb b' (he ▸ rfl)
    obtain ⟨y, hy, hrec, hacc⟩ := h.done hs (fun hn => ht ⟨hn, hne⟩) fun z hz =>
      hne (hbusy n z hz)
    exact ⟨y, by rw [Table.getElem?_set_of_ne hne]; exact hy, hrec.later hl, hacc⟩
  quiet := h.quiet

/-- The start queues a wallet call for a bet. -/
theorem Sweep.queue {todo : Nat → Prop} {busy : Option (Nat × Bet)} {id : Nat} {b b₀ : Bet}
    {r₀ : Round} {j : PendingWalletJob} (h : Sweep env e w₀ todo busy w) (hs : Sound P w)
    (hst : StuckBet w₀ e.key id b₀ r₀) (hrow : w.bets[id]? = some b)
    (hbusy : ∀ n x, busy = some (n, x) → n = id)
    (href : j.payload.referenceTransactionUuid = some b.betTransactionUuid)
    (hid : j.betId = some id) (htaken : ¬ b₀.Skipped r₀) (hl : Later w (w.addJob j)) :
    Sweep env e w₀ (fun n => todo n ∧ n ≠ id) (some (id, b)) (w.addJob j) where
  later := h.later.trans hl
  unused := h.unused
  old := h.old
  rounds := h.rounds
  closed := h.closed
  kept {n x r} hst' ht := by
    have hkept := h.kept hst' ht.1
    refine ⟨hkept.row, fun u hu => hkept.handed u ?_⟩
    rcases hu with hu | ⟨y, hy, he, hr, hu⟩
    · exact .inl hu
    · rcases List.mem_append.mp hy with hy | hy
      · exact .inr ⟨y, hy, he, hr, hu⟩
      · -- the job is for another bet
        obtain rfl := List.mem_singleton.mp hy
        rw [href] at hr
        exact absurd (hs.betOwner hkept.row hrow
          (congrArg Uuid.owner (Option.some.inj hr)).symm) ht.2
  row {n x} hx := by
    obtain ⟨rfl, rfl⟩ := Prod.mk.inj (Option.some.inj hx)
    exact ⟨hrow, b₀, r₀, hst⟩
  done {n x r} hs' ht hb := by
    have hne : n ≠ id := fun he => hb b (he ▸ rfl)
    obtain ⟨y, hy, hrec, hacc⟩ := h.done hs' (fun hn => ht ⟨hn, hne⟩) fun z hz =>
      hne (hbusy n z hz)
    exact ⟨y, hy, hrec.later hl, hacc⟩
  quiet {n x r endpoint} hs' hskip hj := by
    obtain ⟨y, hy, he, hn⟩ := hj
    rcases List.mem_append.mp hy with hy | hy
    · exact h.quiet hs' hskip ⟨y, hy, he, hn⟩
    · -- the bet that the job is for is not skipped
      obtain rfl := List.mem_singleton.mp hy
      obtain rfl := Option.some.inj (hid.symm.trans hn)
      obtain ⟨rfl, rfl⟩ := hs'.unique hst
      exact absurd hskip htaken

/-- The bet under way is recovered. -/
theorem Sweep.finish {todo : Nat → Prop} {id : Nat} {b : Bet}
    (h : Sweep env e w₀ todo (some (id, b)) w)
    (hdone : ∀ {b₀ r₀}, StuckBet w₀ e.key id b₀ r₀ → Recovered env w id r₀ b₀ b)
    (hne : b.status ≠ .accepted) : Sweep env e w₀ todo none w where
  later := h.later
  unused := h.unused
  old := h.old
  rounds := h.rounds
  closed := h.closed
  kept := h.kept
  row hb := nomatch hb
  done {n x r} hs ht _ := by
    by_cases he : n = id
    · subst he
      exact ⟨b, (h.row rfl).1, hdone hs, hne⟩
    · exact h.done hs ht fun z hz => he (Prod.mk.inj (Option.some.inj hz)).1.symm
  quiet := h.quiet

/-! ## The invariant of both loops -/

/-- **The invariant of both loops** of the start: under any policy the engine is known, and where
engines of one key do not run together the start has come as far as the lists say. -/
structure Resume (P : Policy) (e : EngineRef) (w₀ : World) (todo : Nat → Prop)
    (busy : Option (Nat × Bet)) (w : World) : Prop where
  keyed : w.Keyed e
  sweep : P.oneEngine → Sweep P.env e w₀ todo busy w

theorem resume_stable {todo : Nat → Prop} {busy : Option (Nat × Bet)} :
    Stable P i (.start e) (Resume P e w₀ todo busy) := fun _ _ hr h =>
  ⟨hr.later.keyed h.keyed, fun hP =>
    (h.sweep hP).rely hr.later (hr.resume hP e rfl (h.sweep hP).unused)⟩

/-- A step of the start that writes no bet and hands out no win. -/
theorem Resume.next {todo : Nat → Prop} {busy : Option (Nat × Bet)}
    (h : Resume P e w₀ todo busy w) (hl : Later w w') (he : w'.engines = w.engines)
    (hb : w'.bets = w.bets) (hj : w'.jobs = w.jobs) (hs : w'.wire = w.wire)
    (hr : w.SameOutcomes w') : Resume P e w₀ todo busy w' := by
  refine ⟨hl.keyed h.keyed, fun hP => (h.sweep hP).next hl ⟨hl.keyed h.keyed, ?_⟩ hb hj hs hr⟩
  have hactive : w'.activeIds e = w.activeIds e := by
    simp only [World.activeIds, World.engine?, he]
  rw [hactive]
  exact (h.sweep hP).unused.2

/-- What is left after a bet was dealt with. -/
theorem Resume.advance {todo todo' : Nat → Prop} (id : Nat)
    (h : Resume P e w₀ (fun n => todo n ∧ n ≠ id) none w)
    (hsub : P.oneEngine → ∀ n, todo' n → todo n ∧ n ≠ id)
    (hsup : ∀ n, todo n → n ≠ id → todo' n) : Resume P e w₀ todo' none w :=
  ⟨h.keyed, fun hP => (h.sweep hP).imp (hsub hP) fun _ htodo hnot =>
    absurd (hsup _ htodo.1 htodo.2) hnot⟩

/-- A bet of the list that the start goes through, in a round of which it read the row. -/
structure Unresolved (P : Policy) (e : EngineRef) (w₀ : World) (r : Nat × Round) (b : Nat × Bet)
    (w : World) : Prop where
  owes : Owes (.start e) b.1 b.2 w
  round : b.2.roundId = r.1
  credit : ∀ u, b.2.winTransactionUuid = some u → u.use = .credit
  open' : b.2.status = .accepted ∨ b.2.status = .failed
  uncashed : b.2.status = .accepted → b.2.cashoutPayoutMicro = none
  stuck : P.oneEngine → StuckBet w₀ e.key b.1 b.2 r.2

theorem unresolved_stable {r : Nat × Round} {b : Nat × Bet} :
    Stable P i (.start e) (Unresolved P e w₀ r b) :=
  .of_later fun hl h => ⟨h.owes.later hl, h.round, h.credit, h.open', h.uncashed, h.stuck⟩

theorem Unresolved.later {r : Nat × Round} {b : Nat × Bet} (h : Unresolved P e w₀ r b w)
    (hl : Later w w') : Unresolved P e w₀ r b w' :=
  ⟨h.owes.later hl, h.round, h.credit, h.open', h.uncashed, h.stuck⟩

/-- Queueing a job leads to a later world. -/
theorem addJob_later (w : World) (j : PendingWalletJob) : Later w (w.addJob j) :=
  { Later.refl w with job := fun hj => ⟨_, Table.getElem?_concat_of_some hj, .refl _⟩ }

section Bets

variable {todo : Nat → Prop} {r : Nat × Round} {b : Nat × Bet}

/-- **Writing the row of a bet** that is left or under way. -/
theorem Resume.write {busy : Option (Nat × Bet)} {f : Bet → Bet}
    (h : Resume P e w₀ todo busy w) (hb : Unresolved P e w₀ r b w)
    (hbusy : ∀ n x, busy = some (n, x) → n = b.1)
    (hstep : ∀ x, w.bets[b.1]? = some x → x.status.taken = true → x.roundId = b.2.roundId →
      x.terms = b.2.terms → BetStep P i (.start e) w x (f x)) (hf : ∀ x, (f x).roundId = x.roundId) :
    Move P i (.start e) w (w.updateBet b.1 f) ∧ (∀ x, w.bets[b.1]? = some x →
      Resume P e w₀ (fun n => todo n ∧ n ≠ b.1) (some (b.1, f x)) (w.updateBet b.1 f)) := by
  obtain ⟨⟨x, hx, ht, -, hround, hterms⟩, hreach⟩ := hb.owes
  have hmove := updateBet_move (P := P) (i := i) (k := .start e) (w := w) b.1
    (f := f) fun y hy => by
      rw [hx] at hy
      obtain rfl := Option.some.inj hy
      exact ⟨hround ▸ hreach, hstep x hx ht hround hterms⟩
  refine ⟨hmove, fun y hy => ⟨hmove.later.keyed h.keyed, fun hP => ?_⟩⟩
  have hl := hmove.later
  simp only [World.updateBet, Table.modify_eq_set hy] at hl ⊢
  exact (h.sweep hP).write (hb.stuck hP) hy hbusy (hf y) hl

/-- Queueing a wallet call for a bet that is left or under way. -/
theorem Resume.queue {busy : Option (Nat × Bet)} {x : Bet} {j : PendingWalletJob}
    (h : Resume P e w₀ todo busy w) (hs : Sound P w) (hb : Unresolved P e w₀ r b w)
    (hx : w.bets[b.1]? = some x) (hbusy : ∀ n y, busy = some (n, y) → n = b.1)
    (href : j.payload.referenceTransactionUuid = some b.2.betTransactionUuid)
    (hid : j.betId = some b.1) (htaken : ¬ b.2.Skipped r.2) :
    Resume P e w₀ (fun n => todo n ∧ n ≠ b.1) (some (b.1, x)) (w.addJob j) := by
  obtain ⟨⟨y, hy, -, hu, -⟩, -⟩ := hb.owes
  rw [hx] at hy
  obtain rfl := Option.some.inj hy
  exact ⟨h.keyed, fun hP => (h.sweep hP).queue hs (hb.stuck hP) hx hbusy (by rw [href, hu])
    hid htaken (addJob_later w j)⟩

/-- The bet under way is recovered. -/
theorem Resume.finish {x : Bet} (h : Resume P e w₀ todo (some (b.1, x)) w)
    (hb : Unresolved P e w₀ r b w)
    (hdone : P.oneEngine → Recovered P.env w b.1 r.2 b.2 x ∧ x.status ≠ .accepted) :
    Resume P e w₀ todo none w := by
  refine ⟨h.keyed, fun hP => (h.sweep hP).finish (fun {b₀ r₀} hs => ?_) (hdone hP).2⟩
  have hst := hb.stuck hP
  have hb₀ : b.2 = b₀ := Option.some.inj (hst.bet.symm.trans hs.bet)
  have hr₀ : r.2 = r₀ := by
    have hround := hs.round
    rw [← hb₀, hst.round] at hround
    exact Option.some.inj hround
  exact hb₀ ▸ hr₀ ▸ (hdone hP).1

/-- A bet of the list is accepted or failed. -/
theorem Unresolved.not_left (hb : Unresolved P e w₀ r b w)
    (h : b.2.status ≠ .accepted ∧ b.2.status ≠ .failed) : False := by
  rcases hb.open' with ho | ho <;> rw [ho] at h <;> simp at h

/-- A bet of the list is not voided. -/
theorem Unresolved.not_voided (hb : Unresolved P e w₀ r b w) : b.2.status ≠ .voided := by
  rcases hb.open' with ho | ho <;> rw [ho] <;> simp

/-- The row of a bet that is left is the one that was read. -/
theorem Resume.row_eq (h : Resume P e w₀ todo none w) (hb : Unresolved P e w₀ r b w)
    (hin : todo b.1) {x : Bet} (hx : w.bets[b.1]? = some x) (hP : P.oneEngine) : x = b.2 := by
  have hrow := ((h.sweep hP).kept (hb.stuck hP) hin).row
  rw [hx] at hrow
  exact Option.some.inj hrow

/-- A bet that the start does not pass over: no cash-out is noted on it, and the outcome of its
round is stored. -/
def Takes (r : Nat × Round) (b : Nat × Bet) : Prop :=
  b.2.cashoutPayoutMicro = none ∧ r.2.outcome.isSome = true

theorem Takes.not_skipped (h : Takes r b) {p : Prop}
    (hs : b.2.cashoutPayoutMicro.isSome = true ∨ r.2.outcome.isSome = false) : p := by
  rcases hs with hs | hs
  · rw [h.1] at hs
    cases hs
  · rw [h.2] at hs
    cases hs

/-- Such a bet of the list is not skipped. -/
theorem Takes.not_skip (h : Takes r b) (hb : Unresolved P e w₀ r b w) : ¬ b.2.Skipped r.2 := by
  rintro (hl | ⟨-, hs⟩)
  · exact hb.not_left hl
  · exact h.not_skipped hs

/-- An accepted bet is not skipped. -/
theorem not_skipped_of_accepted {r : Round} {b : Bet} (h : b.status = .accepted) :
    ¬ b.Skipped r := by
  rintro (⟨hne, -⟩ | ⟨hf, -⟩)
  · exact hne h
  · exact nomatch h.symm.trans hf

/-- **Closing a losing bet** of a resumed round. -/
theorem resumeLost_go {reason : String} (hin : todo b.1) (htakes : Takes r b)
    (h : Resume P e w₀ todo none w) (hb : Unresolved P e w₀ r b w) (hd : Lost P b.2 w) :
    Walk P i (.start e) (GameEngine.closeLost b.1 reason)
      (fun _ w' => Resume P e w₀ (fun n => todo n ∧ n ≠ b.1) none w') w := by
  have hlose : Walk P i (.start e) (Prog.modify fun w => w.updateBet b.1 (Bet.lose w.now))
      (fun _ w' => Resume P e w₀ (fun n => todo n ∧ n ≠ b.1) none w') w := by
    refine Go.modify fun w₁ hr _ _ => ?_
    have hb₁ := unresolved_stable hr hb
    obtain ⟨⟨x, hx, -⟩, -⟩ := hb₁.owes
    have h₁ := resume_stable hr h
    obtain ⟨hmove, hnext⟩ := h₁.write (i := i) hb₁ (f := Bet.lose w₁.now)
      (fun _ _ hn => nomatch hn) (fun _ hx ht hround hterms => .lose _ _ rfl ht
        (fun hP => h₁.row_eq hb₁ hin hx hP ▸ hb.not_voided) fun hP hC =>
          (lost_stable hr hd hP hC).later (.refl _) (.of_eq rfl) hterms hround) fun _ => rfl
    refine ⟨hmove, fun _ => (hnext x hx).finish (hb₁.later hmove.later) fun hP => ⟨?_, ?_⟩⟩
    · obtain rfl := h₁.row_eq hb₁ hin hx hP
      exact ⟨rfl, fun hl => (hb.not_left hl).elim, fun _ => .inl rfl, fun _ => .inr rfl,
        fun _ _ _ => .inl rfl, fun _ hs => htakes.not_skipped hs⟩
    · simp [Bet.lose]
  exact Go.bind_iff.mpr (hlose.mono fun _ _ h => Walk.idle (Idle.resolveHeld _ _) h resume_stable)

/-- Every win handed out for a bet of the unsettled rounds is noted on the bet. -/
def World.Durable (w : World) (key : EngineKey) : Prop :=
  ∀ id b r, StuckBet w key id b r → ∀ u, w.HandedOut b.betTransactionUuid u →
    b.winTransactionUuid = some u

/-- The transaction of a win that is queued anew. -/
theorem winTransaction_go {R : World → Prop} {bet : Bet} (hR : R w)
    (hstable : Stable P i (.start e) R)
    (hcredit : ∀ u, bet.winTransactionUuid = some u → u.use = .credit) :
    Walk P i (.start e) (GameEngine.winTransaction bet)
      (fun u w' => R w' ∧ u.use = .credit ∧ ∀ v, bet.winTransactionUuid = some v → v = u) w := by
  unfold GameEngine.winTransaction
  split
  · rename_i u hu
    exact ⟨hR, hcredit u hu, fun v hv => Option.some.inj (hv.symm.trans hu)⟩
  · rename_i hnone
    exact (newUuid_go hR hstable).mono fun u w' h =>
      ⟨h.1, h.2.1, fun v hv => nomatch hnone.symm.trans hv⟩

/-- **Queueing the win of a bet anew**, under the transaction that was handed out for it if there
is one. -/
theorem requeueWin_go {payoutMicro : Int} (hin : todo b.1) (htakes : Takes r b)
    (hpays : P.oneEngine → ∃ config commissionMicro,
      P.env.Settles r.2 b.2 config commissionMicro payoutMicro)
    (hdurable : P.oneEngine → P.durable → w₀.Durable e.key)
    (h : Resume P e w₀ todo none w) (hb : Unresolved P e w₀ r b w) (hk : w.OutcomeKnown r.1)
    (hd : Earned P b.2 payoutMicro w) :
    Walk P i (.start e) (GameEngine.requeueWin r b payoutMicro)
      (fun _ w' => Resume P e w₀ (fun n => todo n ∧ n ≠ b.1) none w') w := by
  have hstable : Stable P i (.start e) fun w =>
      Resume P e w₀ todo none w ∧ Unresolved P e w₀ r b w ∧ w.OutcomeKnown r.1 ∧
        Earned P b.2 payoutMicro w :=
    resume_stable.and (unresolved_stable.and (Stable.and (.of_later fun hl => hl.outcomeKnown)
      earned_stable))
  refine Go.bind_iff.mpr ((winTransaction_go ⟨h, hb, hk, hd⟩ hstable hb.credit).mono
    fun winTxUuid w ⟨hR, huse, hsame⟩ => ?_)
  refine Go.bind_iff.mpr ((newUuid_go hR hstable).mono
    fun requestUuid w ⟨hR, _, ho, hn, hq⟩ => ?_)
  have hqueue : Walk P i (.start e)
      (GameEngine.queueJob b.2.operatorId .win b.1 r.1
        { GameEngine.winPayload r.2.gameCode b.2 payoutMicro requestUuid winTxUuid with
          roundId := some r.1 } (some "resumed_from_unsettled_round"))
      (fun _ w' => (∃ x, Resume P e w₀ (fun n => todo n ∧ n ≠ b.1) (some (b.1, x)) w' ∧
        (P.oneEngine → x = b.2)) ∧ Unresolved P e w₀ r b w' ∧ w'.OutcomeKnown r.1 ∧
        w'.Credited b.1 (b.2.fail winTxUuid) payoutMicro) w := by
    refine queueJob_go ⟨hR, .of_not_known hn hq⟩ (hstable.and (queueable_stable ho)) ho
      (fun _ hR => ?_) fun {w j} hs hR he hp hid => ?_
    · obtain ⟨⟨h, hb, hk, hd⟩, hq⟩ := hR
      obtain ⟨⟨x, hx, ht, hu, hround, hterms⟩, hreach⟩ := hb.owes
      refine ⟨hq, x, hx, congrArg some hu.symm, hround ▸ hreach, fun j he hp => ?_⟩
      refine .credit he ht (fun hP => h.row_eq hb hin hx hP ▸ hb.not_voided)
        (by rw [hp]; exact huse) (fun hP hD _ u hu' => ?_) fun hP hC =>
        ⟨payoutMicro, by rw [hp]; rfl, .congr (.inl (hd hP hC)) hterms hround⟩
      -- a win that was handed out before is noted on the bet, and so it is the one queued
      have hkept := (h.sweep hP).kept (hb.stuck hP) hin
      rw [hp]
      exact hsame u (hdurable hP hD _ _ _ (hb.stuck hP) u (hkept.handed u (hu ▸ hu')))
    · obtain ⟨⟨h, hb, hk, -⟩, -⟩ := hR
      obtain ⟨⟨x, hx, -⟩, -⟩ := hb.owes
      have hl := addJob_later w j
      refine ⟨⟨x, h.queue hs hb hx (fun _ _ hn => nomatch hn) (by rw [hp]; rfl) hid
          (htakes.not_skip hb),
        h.row_eq hb hin hx⟩, hb.later hl, hl.outcomeKnown hk, j,
        List.mem_append_right _ (List.mem_singleton.mpr rfl), he, hid, ?_, ?_⟩ <;> rw [hp] <;> rfl
  refine Go.bind_iff.mpr (hqueue.mono fun _ w hR => ?_)
  obtain ⟨⟨x, h, hsame⟩, hb, hk, hj⟩ := hR
  refine Go.modify fun w₁ hr _ _ => ?_
  have hb₁ := unresolved_stable hr hb
  have hk₁ : w₁.OutcomeKnown r.1 := hr.later.outcomeKnown hk
  obtain ⟨⟨y, hy, -⟩, -⟩ := hb₁.owes
  have h₁ := resume_stable hr h
  -- the row is the one that was read
  have hrow : ∀ {y}, w₁.bets[b.1]? = some y → P.oneEngine → y = b.2 := fun {y} hy hP => by
    rw [((h₁.sweep hP).row rfl).1] at hy
    exact (Option.some.inj hy).symm.trans (hsame hP)
  obtain ⟨hmove, hnext⟩ := h₁.write (i := i) hb₁ (f := Bet.fail winTxUuid)
    (fun _ _ hn => (Prod.mk.inj (Option.some.inj hn)).1.symm)
    (fun _ hy ht hround _ => .fail _ _ ht (fun hP => hrow hy hP ▸ hb.not_voided)
      (hround ▸ hb.round ▸ hk₁) huse) fun _ => rfl
  have hj' := hmove.later.credited (hr.later.credited hj)
  refine ⟨hmove, fun _ => ((hnext y hy).finish (hb₁.later hmove.later) fun hP => ⟨?_, ?_⟩).advance
    b.1 (fun _ n hn => ⟨hn, hn.2⟩) fun n hn _ => hn⟩
  · have hyb : y = b.2 := hrow hy hP
    obtain ⟨config, commissionMicro, hsettles⟩ := hpays hP
    have hq : Requeued P.env (w₁.updateBet b.1 (Bet.fail winTxUuid)) b.1 r.2 (y.fail winTxUuid) :=
      ⟨rfl, config, commissionMicro, payoutMicro, hyb ▸ hsettles, hyb ▸ hj'⟩
    exact ⟨hyb ▸ rfl, fun hl => (hb.not_left hl).elim, fun _ => .inr (.inl hq), fun _ => .inl rfl,
      fun _ _ _ => .inr hq, fun _ hs => htakes.not_skipped hs⟩
  · simp [Bet.fail]

/-- No win was handed out for an accepted bet whose round will be voided. -/
def World.Unpaid (w : World) (key : EngineKey) : Prop :=
  ∀ id b r, StuckBet w key id b r → r.outcome = none → b.status = .accepted →
    ∀ u, ¬ w.HandedOut b.betTransactionUuid u

/-- What the policy asks of the world in which a start is called. -/
structure Fit (P : Policy) (w₀ : World) (key : EngineKey) : Prop where
  durable : P.oneEngine → P.durable → w₀.Durable key
  unpaid : P.oneEngine → P.unpaid → w₀.Unpaid key

/-- No win was handed out for a bet, as far as the policy knows. -/
def NoWin (P : Policy) (bet : Bet) (w : World) : Prop :=
  P.oneEngine → P.unpaid → ∀ u, ¬ w.HandedOut bet.betTransactionUuid u

/-- Nobody else hands out a win for a bet that the start deals with. -/
theorem NoWin.rely {busy : Option (Nat × Bet)} (hn : NoWin P b.2 w)
    (h : Resume P e w₀ todo busy w) (hb : Unresolved P e w₀ r b w)
    (hr : Rely P i (.start e) w w') : NoWin P b.2 w' := by
  intro hP hU u hu
  obtain ⟨⟨x, hx, -, htx, hround, -⟩, hreach⟩ := hb.owes
  have hresume := hr.resume hP e rfl (h.sweep hP).unused
  have hhanded := hresume.handed (u := u) hx (by rw [hround]; exact hreach) (by rw [htx]; exact hu)
  exact hn hP hU u (htx ▸ hhanded)

/-- **Voiding an accepted bet** and queueing its rollback. -/
theorem voidBet_go (hin : todo b.1) (h : Resume P e w₀ todo none w)
    (hb : Unresolved P e w₀ r b w) (hacc : b.2.status = .accepted) (hover : w.RoundSettled r.1)
    (hout : r.2.outcome = none) (hunpaid : P.oneEngine → P.unpaid → w₀.Unpaid e.key) :
    Walk P i (.start e) (GameEngine.voidBet r b)
      (fun _ w' => Resume P e w₀ (fun n => todo n ∧ n ≠ b.1) none w') w := by
  have hvoid : Walk P i (.start e) (Prog.modify fun w => w.updateBet b.1 Bet.void)
      (fun _ w' => (∃ x, Resume P e w₀ (fun n => todo n ∧ n ≠ b.1) (some (b.1, x)) w' ∧
        x.status = .voided ∧ (P.oneEngine → x.cashoutPayoutMicro = b.2.cashoutPayoutMicro)) ∧
          Unresolved P e w₀ r b w' ∧ NoWin P b.2 w') w := by
    refine Go.modify fun w₁ hr _ _ => ?_
    have hb₁ := unresolved_stable hr hb
    have hover₁ := hr.later.roundSettled hover
    obtain ⟨⟨y, hy, -⟩, -⟩ := hb₁.owes
    have h₁ := resume_stable hr h
    obtain ⟨hmove, hnext⟩ := h₁.write (i := i) hb₁ (f := Bet.void)
      (fun _ _ hn => nomatch hn)
      (fun _ _ ht hround _ => .void _ ht (hround ▸ hb.round ▸ hover₁)
        ⟨e, rfl, fun hP => (h₁.sweep hP).unused.2⟩) fun _ => rfl
    refine ⟨hmove, fun _ => ⟨⟨_, hnext y hy, rfl, fun hP => ?_⟩, hb₁.later hmove.later,
      fun hP hU u hu => ?_⟩⟩
    · rw [h₁.row_eq hb₁ hin hy hP]
      rfl
    · -- no win was handed out when the start was called, and none since
      have hkept := (h₁.sweep hP).kept (hb₁.stuck hP) hin
      exact hunpaid hP hU _ _ _ (hb₁.stuck hP) hout hacc u (hkept.handed u hu)
  refine Go.bind_iff.mpr (hvoid.mono fun _ w hR => ?_)
  obtain ⟨⟨x, h, hx, hcash⟩, hb, hnowin⟩ := hR
  have hstable : Stable P i (.start e) fun w =>
      Resume P e w₀ (fun n => todo n ∧ n ≠ b.1) (some (b.1, x)) w ∧ Unresolved P e w₀ r b w ∧
        NoWin P b.2 w := fun _ _ hr ⟨h, hb, hn⟩ =>
    ⟨resume_stable hr h, unresolved_stable hr hb, hn.rely h hb hr⟩
  refine Walk.idle_bind (Prog.Keeps.modify fun w => { Same.refl w with }) ⟨h, hb, hnowin⟩ hstable
    fun _ w hR => ?_
  refine Go.bind_iff.mpr ((newUuid_go hR hstable).mono
    fun requestUuid w ⟨hR, _, ho, hn, hq⟩ => ?_)
  have hstable' := hstable.and (queueable_stable (P := P) (k := .start e) ho)
  refine Walk.idle_bind (Idle.newUuid _) ⟨hR, .of_not_known hn hq⟩ hstable'
    fun transactionUuid w hR => ?_
  refine queueJob_go hR hstable' ho (fun _ hR => ?_) fun {w j} hs hR he hp hid => ?_
  · obtain ⟨⟨h, hb, hnowin⟩, hq⟩ := hR
    obtain ⟨⟨y, hy, ht, hu, hround, -⟩, hreach⟩ := hb.owes
    refine ⟨hq, y, hy, congrArg some hu.symm, hround ▸ hreach, fun j he _ => .refund he ?_
      (.inr fun hP => ⟨?_, fun hU => hu ▸ hnowin hP hU⟩)⟩
    · intro hp
      rw [hp] at ht
      cases ht
    · -- the row is the one that was voided
      rw [((h.sweep hP).row rfl).1] at hy
      exact Option.some.inj hy ▸ hx
  · obtain ⟨⟨h, hb, -⟩, -⟩ := hR
    obtain ⟨⟨y, hy, -⟩, -⟩ := hb.owes
    have hl := addJob_later w j
    have hj : (w.addJob j).HasJob .rollback b.1 :=
      ⟨j, List.mem_append_right _ (List.mem_singleton.mpr rfl), he, hid⟩
    refine ((h.queue hs hb hy (fun _ _ hn => (Prod.mk.inj (Option.some.inj hn)).1.symm)
      (by rw [hp]) hid (not_skipped_of_accepted hacc)).finish (hb.later hl) fun hP => ?_).advance
        b.1 (fun _ n hn => ⟨hn, hn.2⟩) fun n hn _ => hn
    -- the row is the one that was voided
    have hyx : y = x := by
      rw [((h.sweep hP).row rfl).1] at hy
      exact (Option.some.inj hy).symm
    rw [hyx]
    refine ⟨⟨hcash hP, fun hleft => (hb.not_left hleft).elim, fun _ => .inr (.inr ⟨hx, hj⟩),
      fun hf => ?_, fun hf => ?_, fun hf => ?_⟩, by rw [hx]; simp⟩ <;> exact nomatch hacc.symm.trans hf

end Bets

/-! ## The bets of a round -/

/-- **The rows that an unordered query hands out**: those that satisfy its condition, each once. -/
theorem findMany_reads {ρ : Type} {table : World → List ρ} {p : World → ρ → Bool}
    {rs : Rules World} {Q : List (Nat × ρ) → World → Prop} (hrefl : ∀ w, rs.guar w w)
    (h : ∀ w₁ rows, rs.rely w w₁ → rs.inv w₁ → (rows.map Prod.fst).Nodup →
      (∀ id x, (id, x) ∈ rows ↔ (table w₁)[id]? = some x ∧ p w₁ x = true) → Q rows w₁) :
    Go rs i (Action.findMany table p) Q w := by
  refine Go.lift fun w₁ hr hs c rows w₂ hrun _ => ?_
  split at hrun
  · split at hrun
    · rename_i ids hperm
      obtain ⟨rfl, rfl⟩ := Prod.mk.inj (Option.some.inj hrun)
      have hperm := List.isPerm_iff.mp hperm
      refine ⟨hrefl w₁, fun _ => h w₁ _ hr hs ?_ fun id x => ?_⟩
      · exact Table.nodup_arrange _ (hperm.nodup_iff.mpr (Table.nodup_ids _ _))
      · exact Table.mem_arrange_of_perm hperm
    · cases hrun
  · cases hrun

theorem findMany_go {ρ : Type} {table : World → List ρ} {p : World → ρ → Bool} {R : World → Prop}
    {k : Call} (hR : R w) (hstable : Stable P i k R) :
    Walk P i k (Action.findMany table p) (fun rows w' => R w' ∧ Sound P w' ∧
      (rows.map Prod.fst).Nodup ∧
        ∀ id x, (id, x) ∈ rows ↔ (table w')[id]? = some x ∧ p w' x = true) w :=
  findMany_reads (fun w => .idle (.refl w)) fun _ _ hr hs hnd hrows =>
    ⟨hstable hr hR, hs, hnd, hrows⟩

/-- The bets of the rounds that are left. -/
def Left (w₀ : World) (rounds : List (Nat × Round)) (n : Nat) : Prop :=
  ∃ b₀, w₀.bets[n]? = some b₀ ∧ b₀.roundId ∈ rounds.map Prod.fst

/-- A round that the start read as unsettled. -/
structure StuckRound (P : Policy) (e : EngineRef) (w₀ : World) (r : Nat × Round) (w : World) :
    Prop where
  roundOf : w.RoundOf r.1 e.key
  known : r.2.outcome.isSome = true → w.OutcomeKnown r.1
  row : P.oneEngine → w₀.rounds[r.1]? = some r.2 ∧ r.2.stuck e.key = true

theorem StuckRound.later {r : Nat × Round} (h : StuckRound P e w₀ r w) (hl : Later w w') :
    StuckRound P e w₀ r w' :=
  ⟨hl.roundOf h.roundOf, fun ho => hl.outcomeKnown (h.known ho), h.row⟩

/-- A bet that was left alone because its status asks for nothing. -/
theorem Kept.done {id : Nat} {b₀ : Bet} {r₀ : Round} (h : Kept w₀ w id b₀)
    (hne : b₀.status ≠ .accepted) (hf : b₀.status = .failed → r₀.outcome.isSome = false) :
    Done env w id r₀ b₀ :=
  ⟨b₀, h.row, ⟨rfl, fun _ => rfl, fun ha => absurd ha hne, .inl,
    fun hfail _ ho => (nomatch (hf hfail).symm.trans ho), fun _ _ => rfl⟩, hne⟩

section Rounds

variable {r : Nat × Round} {rest : List (Nat × Round)} {bets : List (Nat × Bet)}

/-- A bet of the round that is taken up, as it was when the start was called. -/
theorem Sweep.stuckBet (h : Sweep env e w₀ (Left w₀ (r :: rest)) none w)
    (hr : w₀.rounds[r.1]? = some r.2 ∧ r.2.stuck e.key = true) {n : Nat} {x : Bet}
    (hx : w.bets[n]? = some x) (hround : x.roundId = r.1) :
    StuckBet w₀ e.key n x r.2 ∧ Left w₀ (r :: rest) n := by
  obtain ⟨b₀, hb₀⟩ := h.old hx (hround ▸ hr.1) (key_of_stuck hr.2)
  obtain ⟨x', hx', hl⟩ := h.later.bet hb₀
  rw [hx] at hx'
  obtain rfl := Option.some.inj hx'
  have hrid : b₀.roundId = r.1 := hl.roundId.symm.trans hround
  have hleft : Left w₀ (r :: rest) n := ⟨b₀, hb₀, hrid ▸ List.mem_cons_self ..⟩
  have hst : StuckBet w₀ e.key n b₀ r.2 := ⟨hb₀, hrid ▸ hr.1, hr.2⟩
  have hrow := (h.kept hst hleft).row
  rw [hx] at hrow
  obtain rfl := Option.some.inj hrow
  exact ⟨hst, hleft⟩

/-- **Taking up a round**: of its bets, those are left that the query hands out. -/
theorem Resume.take (h : Resume P e w₀ (Left w₀ (r :: rest)) none w)
    (hr : P.oneEngine → w₀.rounds[r.1]? = some r.2 ∧ r.2.stuck e.key = true)
    (hmem : ∀ b ∈ bets, w.bets[b.1]? = some b.2 ∧ b.2.roundId = r.1)
    (hrest : ∀ n x, w.bets[n]? = some x → x.roundId = r.1 → n ∉ bets.map Prod.fst →
      x.status ≠ .accepted ∧ (x.status = .failed → r.2.outcome.isSome = false)) :
    Resume P e w₀ (fun n => n ∈ bets.map Prod.fst ∨ Left w₀ rest n) none w := by
  refine ⟨h.keyed, fun hP => (h.sweep hP).imp (fun n hn => ?_) fun {n b₀ r₀} hst hleft hnot => ?_⟩
  · rcases hn with hn | ⟨b₀, hb₀, hin⟩
    · obtain ⟨b, hb, rfl⟩ := List.mem_map.mp hn
      obtain ⟨hrow, hround⟩ := hmem b hb
      exact ((h.sweep hP).stuckBet (hr hP) hrow hround).2
    · exact ⟨b₀, hb₀, List.mem_cons_of_mem _ hin⟩
  · have hkept := (h.sweep hP).kept hst hleft
    have hrid : b₀.roundId = r.1 := by
      obtain ⟨b₁, hb₁, hin⟩ := hleft
      rw [hst.bet] at hb₁
      obtain rfl := Option.some.inj hb₁
      rcases List.mem_cons.mp hin with he | hin
      · exact he
      · exact absurd (.inr ⟨_, hst.bet, hin⟩) hnot
    have hr₀ : r₀ = r.2 := by
      have := hst.round
      rw [hrid, (hr hP).1] at this
      exact (Option.some.inj this).symm
    obtain ⟨hne, hf⟩ := hrest n b₀ hkept.row hrid fun hn => hnot (.inl hn)
    exact hkept.done hne (hr₀ ▸ hf)

/-- What the loop over the bets of a round keeps. -/
structure Sweeping (P : Policy) (e : EngineRef) (w₀ : World) (r : Nat × Round)
    (rest : List (Nat × Round)) (bets : List (Nat × Bet)) (w : World) : Prop where
  resume : Resume P e w₀ (fun n => n ∈ bets.map Prod.fst ∨ Left w₀ rest n) none w
  open' : ∀ b ∈ bets, Unresolved P e w₀ r b w
  nodup : (bets.map Prod.fst).Nodup

/-- One bet of the loop was dealt with. -/
theorem Sweeping.next {b : Nat × Bet} (h : Sweeping P e w₀ r rest (b :: bets) w)
    (hnot : r.1 ∉ rest.map Prod.fst) (hl : Later w w')
    (h' : Resume P e w₀ (fun n => (n ∈ (b :: bets).map Prod.fst ∨ Left w₀ rest n) ∧ n ≠ b.1)
      none w') : Sweeping P e w₀ r rest bets w' := by
  have hnodup := List.nodup_cons.mp h.nodup
  refine ⟨h'.advance b.1 (fun hP n hn => ?_) fun n hn hne => ?_,
    fun x hx => (h.open' x (List.mem_cons_of_mem _ hx)).later hl, hnodup.2⟩
  · rcases hn with hn | ⟨b₀, hb₀, hin⟩
    · exact ⟨.inl (List.mem_cons_of_mem _ hn), fun he => hnodup.1 (he ▸ hn)⟩
    · refine ⟨.inr ⟨b₀, hb₀, hin⟩, fun he => hnot ?_⟩
      have hb := h.open' b (List.mem_cons_self ..)
      have hst := (hb.stuck hP).bet
      rw [← he, hb₀] at hst
      rw [← hb.round, ← Option.some.inj hst]
      exact hin
  · rcases hn with hn | hn
    · rcases List.mem_cons.mp hn with he | hn
      · exact absurd he hne
      · exact .inl hn
    · exact .inr hn

/-- A bet of the round as it was read. -/
theorem Resume.unresolved (h : Resume P e w₀ (Left w₀ (r :: rest)) none w) (hs : Sound P w)
    (hr : StuckRound P e w₀ r w) {b : Nat × Bet} (hb : w.bets[b.1]? = some b.2)
    (hround : b.2.roundId = r.1) (ho : b.2.status = .accepted ∨ b.2.status = .failed) :
    Unresolved P e w₀ r b w where
  owes := .of_read hb (by rcases ho with ho | ho <;> rw [ho] <;> rfl) (hround ▸ hr.roundOf)
  round := hround
  credit := hs.betWin (List.mem_of_getElem? hb)
  open' := ho
  uncashed ha := (hs.betOpen (List.mem_of_getElem? hb) (.inr ha)).2
  stuck hP := ((h.sweep hP).stuckBet (hr.row hP) hb hround).1

/-- **The rounds that the start has not settled** are the listed ones. -/
structure Listed (e : EngineRef) (rest : List (Nat × Round)) (w : World) : Prop where
  unused : w.Unused e
  rows : ∀ (id : Nat) (x : Round), (id, x) ∈ rest ↔ w.rounds[id]? = some x ∧ x.stuck e.key = true

theorem listed_stable : Stable P i (.start e) fun w => P.oneEngine → Listed e rest w := by
  intro w w' hr h hP
  obtain ⟨hun, hrows⟩ := h hP
  have hresume := hr.resume hP e rfl hun
  refine ⟨hresume.unused, fun id x => (hrows id x).trans ⟨fun ⟨hx, hstuck⟩ => ?_,
    fun ⟨hx, hstuck⟩ => ⟨hresume.rounds hx (key_of_stuck hstuck), hstuck⟩⟩⟩
  obtain ⟨x', hx', hl⟩ := hr.later.round hx
  have hrow := hresume.rounds hx' (hl.key.trans (key_of_stuck hstuck))
  rw [hx] at hrow
  exact ⟨Option.some.inj hrow ▸ hx', hstuck⟩

/-- Where the rounds are left alone, the same ones are listed. -/
theorem Listed.same (h : Listed e rest w) (hl : Later w w') (hs : SameRounds w w') :
    Listed e rest w' :=
  ⟨⟨hl.keyed h.unused.1, (hs.activeIds e).trans h.unused.2⟩, fun id x => by
    rw [hs.rounds]
    exact h.rows id x⟩

/-- The first of the listed rounds is settled. -/
theorem Listed.settle {f : Round → Round} (h : Listed e (r :: rest) w)
    (hnot : r.1 ∉ rest.map Prod.fst) (hl : Later w (w.updateRound r.1 f))
    (hf : ∀ x, (f x).settled = true) : Listed e rest (w.updateRound r.1 f) := by
  obtain ⟨hr, -⟩ := (h.rows r.1 r.2).mp (List.mem_cons_self ..)
  refine ⟨⟨hl.keyed h.unused.1, h.unused.2⟩, fun id x => ?_⟩
  simp only [World.updateRound, Table.modify_eq_set hr]
  by_cases hid : id = r.1
  · subst hid
    refine ⟨fun hx => absurd (List.mem_map_of_mem (f := Prod.fst) hx) hnot, fun hx => ?_⟩
    obtain ⟨hx, hstuck⟩ := hx
    rw [Table.getElem?_set_self_of_some hr] at hx
    obtain rfl := Option.some.inj hx
    simp [Round.stuck, hf] at hstuck
  · rw [Table.getElem?_set_of_ne hid, ← h.rows id x, List.mem_cons]
    exact ⟨.inr, fun hx => hx.resolve_left fun he => hid (congrArg Prod.fst he)⟩

/-- When no round is listed, all are settled. -/
theorem Listed.allSettled (h : Listed e [] w) : w.AllSettled e.key := by
  intro x hx hk
  obtain ⟨n, hn⟩ := List.mem_iff_getElem?.mp hx
  by_contra hset
  have hstuck : x.stuck e.key = true := by
    simp only [Bool.not_eq_true] at hset
    rw [← hk]
    simp [Round.stuck, Round.key, hset]
  cases (h.rows n x).mpr ⟨hn, hstuck⟩

/-- A round that the start has not settled: its row is the one that was read. -/
def Standing (P : Policy) (e : EngineRef) (r : Nat × Round) (w : World) : Prop :=
  P.oneEngine → w.Unused e ∧ w.rounds[r.1]? = some r.2 ∧ r.2.stuck e.key = true

theorem Standing.of_listed (h : P.oneEngine → Listed e (r :: rest) w) : Standing P e r w :=
  fun hP => ⟨(h hP).unused, ((h hP).rows r.1 r.2).mp (List.mem_cons_self ..)⟩

theorem standing_stable : Stable P i (.start e) (Standing P e r) := by
  intro w w' hr h hP
  obtain ⟨hun, hrow, hstuck⟩ := h hP
  have hresume := hr.resume hP e rfl hun
  obtain ⟨r', hr', hl⟩ := hr.later.round hrow
  have hrow' := hresume.rounds hr' (hl.key.trans (key_of_stuck hstuck))
  rw [hrow] at hrow'
  exact ⟨hresume.unused, Option.some.inj hrow' ▸ hr', hstuck⟩

/-- The game's settlement of a bet that is left, under what the engine holds. -/
theorem Sweeping.terms {b : Nat × Bet} {engine : Engine}
    (h : Sweeping P e w₀ r rest (b :: bets) w) (hcash : b.2.cashoutPayoutMicro = none)
    (hst : Standing P e r w) (he : w.engine? e = some engine) (hpriced : P.priced → w.Priced (.start e))
    (hP : P.oneEngine) (hC : P.priced) : w.rounds[b.2.roundId]? = some r.2 ∧
      r.2.createdUnder = some engine.gameConfig ∧
        b.2.commissionMicro = engine.cfg.commissionMicro := by
  have hb := h.open' b (List.mem_cons_self ..)
  obtain ⟨-, hrow, hstuck⟩ := hst hP
  have hbet := ((h.resume.sweep hP).kept (hb.stuck hP) (.inl (List.mem_cons_self ..))).row
  have hopen : b.2.unresolved = true := by
    rcases hb.open' with ha | hf
    · simp [Bet.unresolved, ha]
    · simp [Bet.unresolved, hf, hcash]
  have hround : w.rounds[b.2.roundId]? = some r.2 := by rw [hb.round, hrow]
  exact ⟨hround, hpriced hC engine he b.2 (List.mem_of_getElem? hbet) hopen r.2 hround hstuck⟩

/-- Resuming one bet of a round with a known outcome. -/
theorem resumeBet_go {plugin : GamePlugin} {outcome : GameOutcome} {total : Int} {b : Nat × Bet}
    (hplugin : P.env.getPlugin e.key.gameCode = some plugin) (hout : r.2.outcome = some outcome)
    (hdurable : P.oneEngine → P.durable → w₀.Durable e.key) (hnot : r.1 ∉ rest.map Prod.fst)
    (h : Sweeping P e w₀ r rest (b :: bets) w) (hk : w.OutcomeKnown r.1)
    (hst : Standing P e r w) :
    Walk P i (.start e) (GameEngine.resumeBet e plugin r outcome total b)
      (fun _ w' => Sweeping P e w₀ r rest bets w') w := by
  have hb := h.open' b (List.mem_cons_self ..)
  have hin : b.1 ∈ (b :: bets).map Prod.fst ∨ Left w₀ rest b.1 := .inl (List.mem_cons_self ..)
  unfold GameEngine.resumeBet
  split
  · -- a failed cash-out keeps its own queued credit
    rename_i payout hpayout
    refine h.next hnot (.refl w) ⟨h.resume.keyed, fun hP => ?_⟩
    refine (h.resume.sweep hP).imp (fun _ hn => hn.1) fun {n b₀ r₀} hst ht hn => ?_
    have hn : n = b.1 := Classical.byContradiction fun hne => hn ⟨ht, hne⟩
    subst hn
    have hb₀ : b₀ = b.2 := Option.some.inj (hst.bet.symm.trans (hb.stuck hP).bet)
    have hfailed : b₀.status = .failed := by
      rw [hb₀]
      rcases hb.open' with ho | ho
      · rw [hb.uncashed ho] at hpayout
        cases hpayout
      · exact ho
    refine ⟨b₀, ((h.resume.sweep hP).kept hst hin).row, ⟨rfl, fun _ => rfl, fun ha => ?_, .inl,
      fun _ hc => ?_, fun _ _ => rfl⟩, by rw [hfailed]; simp⟩
    · exact nomatch hfailed.symm.trans ha
    · rw [hb₀, hpayout] at hc
      cases hc
  · rename_i hcash
    have htakes : Takes r b := ⟨hcash, by rw [hout]; rfl⟩
    have hstable : Stable P i (.start e) fun w => Sweeping P e w₀ r rest (b :: bets) w ∧
        w.OutcomeKnown r.1 ∧ Standing P e r w := fun _ _ hr ⟨h, hk, hst⟩ =>
      ⟨⟨resume_stable hr h.resume, fun x hx => unresolved_stable hr (h.open' x hx), h.nodup⟩,
        hr.later.outcomeKnown hk, standing_stable hr hst⟩
    refine Go.bind_iff.mpr ((engine_go ⟨h, hk, hst⟩ hstable).mono fun engine w hR => ?_)
    obtain ⟨⟨h, hk, hst⟩, he, -, hpriced⟩ := hR
    have hb := h.open' b (List.mem_cons_self ..)
    cases engine with
    | none =>
        obtain ⟨engine, he', -⟩ := h.resume.keyed
        rw [he] at he'
        cases he'
    | some engine =>
        dsimp only
        split
        · rename_i hlost
          have hloses : Lost P b.2 w := fun hP hC => by
            obtain ⟨hround, hcreated, hcommission⟩ := h.terms hcash hst he hpriced hP hC
            refine ⟨r.2, _, plugin, outcome, hround, hcreated, ?_, hout, ?_⟩
            · rw [← hplugin, ← key_of_stuck (hb.stuck hP).stuck]
              rfl
            · rw [hcommission]
              simpa using hlost
          exact Go.bind_iff.mpr ((resumeLost_go hin htakes h.resume hb hloses).later.mono
            fun _ _ ⟨h', hl⟩ => h.next hnot hl h')
        · rename_i hwon
          have hgame : P.oneEngine → P.env.getPlugin r.2.gameCode = some plugin := fun hP => by
            rw [← hplugin, ← key_of_stuck (hb.stuck hP).stuck]
            rfl
          have hpays := fun hP : P.oneEngine => Env.Settles.of_won (hgame hP) hout hwon
          refine Go.bind_iff.mpr ((requeueWin_go hin htakes (fun hP => ⟨_, _, hpays hP⟩) hdurable
            h.resume hb hk fun hP hC => ?_).later.mono fun _ _ ⟨h', hl⟩ => h.next hnot hl h')
          obtain ⟨hround, hcreated, hcommission⟩ := h.terms hcash hst he hpriced hP hC
          exact ⟨r.2, _, hround, hcreated, hcommission ▸ hpays hP⟩

end Rounds

end YantraRgs
