import YantraRgs.Properties.Runs
import YantraRgs.Properties.WagerChecks

/-! # The limits on wagers

The stakes of a session, and those of its player since midnight, have caps. A bet is checked against the
stakes that were accepted or settled, and only later takes its own. The check does not see a bet that is
pending or failed, so two bets that are checked at once may both use the room that is left.

* **`World.WithinLimits`** — the property; **`World.Capped`** — the invariant behind it.
* **`Uncrowded`** — the condition on the steps of a run.
* **`wagers_within`** — the property along every run that meets the condition. -/

namespace YantraRgs

open Await

namespace World

variable (w : World)

/-- The stakes in a scope on the day of `now`, over the bets before bet `n` that satisfy `f`. -/
def stakedBefore (n : Nat) (a : Account) (scope : WagerScope) (now : Millis) (f : Bet → Bool) : Int :=
  Table.total (fun b => a.covers now b scope && f b) Bet.amountMicro (w.bets.take n)

theorem stakedBefore_length {a : Account} {scope : WagerScope} {f : Bet → Bool} :
    w.stakedBefore w.bets.length a scope w.now f = w.staked a scope f := by
  rw [stakedBefore, List.take_length]
  rfl

/-- **No stake that was taken lifts the stakes taken so far above a cap**, neither over its session nor
over the day of its player. -/
def WithinLimits : Prop :=
  ∀ (n : Nat) (b : Bet), w.bets[n]? = some b → b.taken = true → ∀ a ∈ w.account? b.sessionId,
    ∀ scope, ∀ cap ∈ a.cap scope, w.stakedBefore (n + 1) a scope b.placedAt Bet.taken ≤ cap

/-- Every stake that is taken, or may yet be, had room when its bet was created. -/
def Capped : Prop :=
  ∀ (n : Nat) (b : Bet), w.bets[n]? = some b → b.weighs = true → ∀ a ∈ w.account? b.sessionId,
    ∀ scope, ∀ cap ∈ a.cap scope,
      w.stakedBefore n a scope b.placedAt Bet.weighs + b.amountMicro ≤ cap

end World

/-- **The condition on a step**: it leaves room to every wager that is being checked, and a voided bet
stays voided. -/
structure Uncrowded (p : State) (x : Happening) (q : State) : Prop where
  room : ∀ i < p.tasks.length, ∀ t ∈ p.tasks[i]?, t.live → ∀ params ∈ t.call.placing?,
    NoBetYet i p.world → Unshared params i (ran? x = some i) p.world q.world
  voided : ∀ n < p.world.bets.length, ∀ b ∈ p.world.bets[n]?, b.status = .voided →
    ∀ b' ∈ q.world.bets[n]?, b'.status = .voided

/-! ## Runs -/

section Runs

variable {env : Env} {p q : State} {x : Happening} {w w' : World}

/-- Whether a call places a bet. -/
def Call.Places (k : Call) : Prop := k.placing?.isSome = true

theorem Call.Places.cases {k : Call} (h : k.Places) : ∃ e params, k = .placeBet e params := by
  cases k with
  | placeBet e params => exact ⟨e, params, rfl⟩
  | _ => cases h

/-- **The invariant behind the property**: no stake is negative, every one had room, and every wager
under way may go on. -/
structure Wagering (env : Env) (p : State) : Prop where
  unsigned : p.world.Unsigned
  capped : p.world.Capped
  watched : Watched (wagerRules env) Call.Places p

theorem uncrowded_meets : Meets (.free env) Uncrowded where
  permit _ _ := .of_free id id id id
  engines h := h.elim
  countedUp h := h.elim
  fit _ := ⟨fun h => h.elim, fun h => h.elim⟩
  closed h := h.elim
  crashes h := h.elim
  configs h := h.elim
  verifies h := h.elim
  focus _ _ h := nomatch h

/-- A stake that is taken weighs. -/
theorem Bet.weighs_of_taken {b : Bet} (h : b.taken = true) : b.weighs = true := by
  have hstatus : (b.status = .accepted ∨ b.status = .settled) ∨ b.status = .failed := by
    simpa [Bet.taken, Bet.counts] using h
  rcases hstatus with (h | h) | h <;> rw [Bet.weighs, h] <;> rfl

/-- A bet that weighs did so before, as long as it is not revived. -/
theorem Bet.Later.weighs {b b' : Bet} (h : b.Later b') (hv : b.status = .voided → b'.status = .voided)
    (hb : b'.weighs = true) : b.weighs = true := by
  obtain ⟨hrej, hvoid⟩ := of_decide_eq_true hb
  exact decide_eq_true ⟨h.not_rejected hrej, fun hb => hvoid (hv hb)⟩

/-- The bets before a place do not become more when their rows go on. -/
theorem World.stakedBefore_le {n : Nat} {a : Account} {scope : WagerScope} {now : Millis}
    {f : Bet → Bool} (hw : w.Unsigned)
    (h : ∀ m < n, ∀ b', w'.bets[m]? = some b' → f b' = true →
      ∃ b, w.bets[m]? = some b ∧ b.Later b' ∧ f b = true) :
    w'.stakedBefore n a scope now f ≤ w.stakedBefore n a scope now f := by
  refine Table.total_le (fun m b' hb' hcounted => ?_) fun b hb => hw b (List.mem_of_mem_take hb)
  rw [List.getElem?_take] at hb'
  split at hb'
  · rename_i hm
    simp only [Bool.and_eq_true] at hcounted
    obtain ⟨b, hb, hl, hf⟩ := h m hm b' hb' hcounted.2
    refine ⟨b, by rw [List.getElem?_take, if_pos hm, hb], ?_, hl.amountMicro.symm⟩
    rw [← hl.covers, hcounted.1, hf]
    rfl
  · cases hb'

/-- A step leaves room to a wager under way, unless it is its own. -/
theorem Stepped.wagerRely (h : Stepped (.free env) p x q) (hA : Uncrowded p x q)
    (hw : p.world.Unsigned → q.world.Unsigned) {i : Nat} {t : Task World Choice Call}
    (ht : p.tasks[i]? = some t) (hl : t.live) (hother : ∀ c, x ≠ .run i c) :
    ∀ params ∈ t.call.placing?, WagerRely i params.sessionId p.world q.world := by
  intro params hparams
  have hi := (List.getElem?_eq_some_iff.mp ht).1
  have hnot : ran? x ≠ some i := by
    intro hx
    cases x with
    | run j c => exact hother c (congrArg (Event.run · c) (Option.some.inj hx))
    | _ => cases hx
  refine ⟨h.paced.later, h.paced.now, hw, fun hnone b' hb' ho => ?_, fun a ha => h.account ha,
    fun hnone a ha scope hcap n b' hb' hcovers hc => ?_⟩
  · obtain ⟨n, hn⟩ := List.mem_iff_getElem?.mp hb'
    rcases h.bet_origin hn with ⟨b, hb, hlater⟩ | ⟨j, c, _, hx, -, -, hnew⟩
    · exact hnone b (List.mem_of_getElem? hb) (hlater.betTransactionUuid ▸ ho)
    · obtain rfl : j = i := hnew.owner.symm.trans ho
      exact hother c hx
  · have hroom := hA.room i hi t ht hl params hparams hnone
    exact (Option.any_eq_true ..).mp (hroom.counted hnot a ha scope hcap n
      (List.getElem?_eq_some_iff.mp hb').1 b' hb' hcovers hc)

/-- What a wager does is permitted. -/
theorem Stepped.wagerPermit (h : Stepped (.free env) p x q) (hA : Uncrowded p x q) {i : Nat}
    {c : Choice} {t : Task World Choice Call} (hx : x = .run i c) (ht : p.tasks[i]? = some t)
    (hl : t.live) : (wagerRules env i t.call).permit p.world q.world := by
  refine ⟨?_, fun params hparams hnone => ?_⟩
  · cases h with
    | move j c' t' hx' ht' hl' hp' hmove =>
        obtain ⟨rfl, rfl⟩ := Event.run.inj (hx'.symm.trans hx)
        obtain rfl := Option.some.inj (ht'.symm.trans ht)
        exact hmove
    | outer y hy hout => cases hx.symm.trans hy
    | stay hw => exact .idle (hw ▸ .refl _)
  · have hrun : ran? x = some i := by rw [hx]; rfl
    have hroom := hA.room i (List.getElem?_eq_some_iff.mp ht).1 t ht hl params hparams hnone
    simpa only [hrun, eq_self] using hroom

/-- **A new bet was checked.** -/
theorem Wagering.newCapped (h : Wagering env p) (hs : (server env).step p x = some q)
    (hA : Uncrowded p x q) (hx : Stepped (.free env) p x q) {b' : Bet} {i : Nat} {c : Choice}
    {t : Task World Choice Call} (hrun : x = .run i c) (ht : p.tasks[i]? = some t)
    (hnew : NewBet i t.call p.world b') : NewCapped p.world q.world := by
  subst hrun
  obtain ⟨k, β, run, next, b, w, hi, -, -⟩ := System.runTask_cases hs
  obtain rfl := Option.some.inj (hi.symm.trans ht)
  obtain ⟨e, params, hcall⟩ := hnew.placing
  have hplaces : Call.Places k := by
    rw [show k = .placeBet e params from hcall]
    rfl
  exact h.watched.guar hs ht hplaces (fun _ _ => .refl _) h.unsigned
    (hx.wagerPermit hA rfl ht rfl) hnew.sole

/-- A step takes no negative stake. -/
theorem Wagering.unsigned_step (h : Wagering env p) (hs : (server env).step p x = some q)
    (hA : Uncrowded p x q) (hx : Stepped (.free env) p x q) : q.world.Unsigned := by
  intro b' hb'
  obtain ⟨n, hn⟩ := List.mem_iff_getElem?.mp hb'
  rcases hx.bet_origin hn with ⟨b, hb, hlater⟩ | ⟨i, c, t, hrun, ht, rfl, hnew⟩
  · rw [hlater.amountMicro]
    exact h.unsigned b (List.mem_of_getElem? hb)
  · exact (h.newCapped hs hA hx hrun ht hnew b' hn).1

/-- **A step keeps to the caps**: what is new was checked, and what is old does not become more. -/
theorem Wagering.capped_step (h : Wagering env p) (hs : (server env).step p x = some q)
    (hA : Uncrowded p x q) (hsound : Sound (.free env) p.world) (hx : Stepped (.free env) p x q) :
    q.world.Capped := by
  intro n b' hb' hweighs a ha scope cap hcap
  -- an account of the next state is one of this state
  have hold : ∀ {id : Nat}, (∃ s, p.world.sessions[id]? = some s) → q.world.account? id = some a →
      p.world.account? id = some a := by
    intro id hs ha
    obtain ⟨s, hs⟩ := hs
    have ha₀ : p.world.account? id = some (s.account id) := by rw [World.account?, hs]; rfl
    rw [ha₀, ← hx.account ha₀, ha]
  have hrows : ∀ m < n, ∀ c', q.world.bets[m]? = some c' → c'.weighs = true →
      ∃ c, p.world.bets[m]? = some c ∧ c.Later c' ∧ c.weighs = true := by
    intro m hm c' hc' hw
    have hlen : n ≤ p.world.bets.length := by
      rcases hx.bet_origin hb' with ⟨b, hb, -⟩ | ⟨-, -, -, -, -, rfl, -⟩
      · exact (List.getElem?_eq_some_iff.mp hb).1.le
      · exact Nat.le_refl _
    rcases hx.bet_origin hc' with ⟨c, hc, hlater⟩ | ⟨-, -, -, -, -, rfl, -⟩
    · exact ⟨c, hc, hlater, hlater.weighs (fun hv =>
        hA.voided m (List.getElem?_eq_some_iff.mp hc).1 c hc hv c' hc') hw⟩
    · omega
  have hle : q.world.stakedBefore n a scope b'.placedAt Bet.weighs ≤
      p.world.stakedBefore n a scope b'.placedAt Bet.weighs := World.stakedBefore_le h.unsigned hrows
  rcases hx.bet_origin hb' with ⟨b, hb, hlater⟩ | ⟨i, c, t, hrun, ht, rfl, hnew⟩
  · have hsession := hsound.betSession (List.mem_of_getElem? hb)
    have hweighed := hlater.weighs (fun hv =>
      hA.voided n (List.getElem?_eq_some_iff.mp hb).1 b hb hv b' hb') hweighs
    rw [hlater.sessionId] at ha
    have hcapped := h.capped n b hb hweighed a (hold hsession ha) scope cap hcap
    rw [hlater.placedAt] at hle ⊢
    rw [hlater.amountMicro]
    omega
  · have hroom := (h.newCapped hs hA hx hrun ht hnew b' hb').2 a (hold hnew.session ha) scope cap hcap
    rw [hnew.placedAt, World.stakedBefore_length] at hle
    rw [hnew.placedAt]
    omega

/-- **A step keeps the invariant.** -/
theorem Wagering.step (h : Wagering env p) (hs : (server env).step p x = some q)
    (hA : Uncrowded p x q) (hsound : Sound (.free env) p.world) (hord : Orderly p)
    (hx : Stepped (.free env) p x q) : Wagering env q := by
  have hunsigned := h.unsigned_step hs hA hx
  refine ⟨hunsigned, h.capped_step hs hA hsound hx, ?_⟩
  refine h.watched.step hs (fun i k w _ _ _ => .refl w)
    (fun i k _ _ _ _ hab hbc params hparams => (hab params hparams).trans (hbc params hparams))
    (fun _ _ _ => ⟨h.unsigned, hunsigned⟩)
    (fun i t ht hl _ hother => hx.wagerRely hA (fun _ => hunsigned) ht hl hother)
    (fun i c t hrun ht _ => ?_) fun k hcall hk => ?_
  · subst hrun
    obtain ⟨k, β, run, next, b, w, hi, -, -⟩ := System.runTask_cases hs
    obtain rfl := Option.some.inj (hi.symm.trans ht)
    exact hx.wagerPermit hA rfl ht rfl
  · obtain ⟨e, params, rfl⟩ := hk.cases
    have hfresh : NoBetYet p.tasks.length p.world := fun b hb ho =>
      absurd (hord.stakes b hb) (by rw [ho, Pool.calls, List.length_map]; exact Nat.lt_irrefl _)
    exact Go.bind_iff.mpr ((placeBet_wager hfresh h.unsigned).mono fun a w _ =>
      Go.request fun _ _ _ _ => ⟨fun _ => .of_bets rfl, fun _ => trivial⟩)

/-- **The stakes are within the limits** where every one had room. -/
theorem World.Capped.withinLimits (h : w.Capped) (hw : w.Unsigned) : w.WithinLimits := by
  intro n b hb ht a ha scope cap hcap
  have hroom := h n b hb (Bet.weighs_of_taken ht) a ha scope cap hcap
  have hpos := hw b (List.mem_of_getElem? hb)
  have hle : w.stakedBefore n a scope b.placedAt Bet.taken ≤
      w.stakedBefore n a scope b.placedAt Bet.weighs := by
    refine Table.total_le (fun m c hc hcounted => ⟨c, hc, ?_, rfl⟩) fun c hc =>
      hw c (List.mem_of_mem_take hc)
    simp only [Bool.and_eq_true] at hcounted ⊢
    exact ⟨hcounted.1, Bet.weighs_of_taken hcounted.2⟩
  have hlast : w.stakedBefore (n + 1) a scope b.placedAt Bet.taken ≤
      w.stakedBefore n a scope b.placedAt Bet.taken + b.amountMicro := by
    rw [World.stakedBefore, List.take_add_one, hb, Option.toList_some, Table.total_concat]
    unfold World.stakedBefore
    split <;> omega
  omega

end Runs

/-- **The limits on wagers.** In every run of any calls in any order, in which every bet that is being
checked is left room to: no stake that was taken lifts the stakes taken so far, over its session or over
the day of its player, above the cap of its session. -/
theorem wagers_within {env : Env} {p : State} (h : History env Uncrowded p) :
    p.world.WithinLimits := by
  obtain ⟨-, hJ⟩ := History.invariant (J := Wagering env) uncrowded_meets h
    (fun _ _ _ => ⟨fun b hb => (nomatch hb), fun _ _ hb => (nomatch hb), fun i t ht => (nomatch ht)⟩)
    fun _ _ _ hs hA hsound hord hx hJ => hJ.step hs hA hsound hord hx
  exact hJ.capped.withinLimits hJ.unsigned

namespace Sample

/-- Betting is open in a first round (call 1), and ann has a session with a cap on her wagers
(call 2). -/
def capped (sessionWagerMicro : Int) : List Happening :=
  boot 0 0 0 ++ .call (.iteration (engine 0 0) 1) :: run 1 8 ++
    .call (.createSession ⟨0, .named "ann", 0, 0, "INTL", .real, none,
      ⟨none, none, none, some sessionWagerMicro, none⟩, none⟩) :: run 2 2

/-- The operator takes the stake of call `i`, whose request is the one sent as number `n`. -/
def stakeTaken (i n : Nat) : List Happening :=
  .env (.deliver n ⟨true, .ok, some 90⟩ none) :: .run i (.reply n) :: run i 12

/-- Under a cap of twenty, two bets of ten, one after the other. -/
def inTurn : List Happening :=
  capped 20 ++ .call (bet 0 (.dice .low)) :: run 3 14 ++ stakeTaken 3 0 ++
    .call (bet 0 (.dice .high)) :: run 4 14 ++ stakeTaken 4 1

/-- Under a cap of fifteen, two bets of ten, both checked before a stake is taken. -/
def atOnce : List Happening :=
  capped 15 ++ .call (bet 0 (.dice .low)) :: run 3 14 ++ .call (bet 0 (.dice .high)) :: run 4 14 ++
    stakeTaken 3 0 ++ stakeTaken 4 1

end Sample

section Decidable

set_option synthInstance.maxSize 512

instance decidableForallScope {P : WagerScope → Prop} [∀ scope, Decidable (P scope)] :
    Decidable (∀ scope, P scope) :=
  decidable_of_iff (P .session ∧ P .day)
    ⟨fun h scope => WagerScope.casesOn (motive := P) scope h.1 h.2, fun h => ⟨h .session, h .day⟩⟩

instance decidableWithinLimits (w : World) : Decidable w.WithinLimits :=
  decidable_of_iff (∀ n < w.bets.length, ∀ b ∈ w.bets[n]?, b.taken = true →
      ∀ a ∈ w.account? b.sessionId, ∀ scope, ∀ cap ∈ a.cap scope,
        w.stakedBefore (n + 1) a scope b.placedAt Bet.taken ≤ cap)
    ⟨fun h n b hb => h n (List.getElem?_eq_some_iff.mp hb).1 b hb, fun h n _ b hb => h n b hb⟩

instance decidableUnshared (p : PlaceBetParams) (i : Nat) (own : Prop) [Decidable own] (w w' : World) :
    Decidable (Unshared p i own w w') :=
  decidable_of_iff
    ((¬ own → ∀ a ∈ w.account? p.sessionId, ∀ scope, (a.cap scope).isSome = true →
        ∀ n < w'.bets.length, ∀ b' ∈ w'.bets[n]?, a.covers w'.now b' scope = true →
          b'.counts = true → (w.bets[n]?).any Bet.counts = true) ∧
      (own → ¬ NoBetYet i w' → ∀ a ∈ w.account? p.sessionId, ∀ scope, (a.cap scope).isSome = true →
        ∀ b ∈ w.bets, a.covers w.now b scope = true → b.weighs = true → b.counts = true) ∧
      (own → ¬ NoBetYet i w' → 0 ≤ p.amountMicro))
    ⟨fun ⟨h₁, h₂, h₃⟩ => ⟨h₁, h₂, h₃⟩, fun h => ⟨h.counted, h.seen, h.stake⟩⟩

instance decidableUncrowded (p : State) (x : Happening) (q : State) : Decidable (Uncrowded p x q) :=
  decidable_of_iff
    ((∀ i < p.tasks.length, ∀ t ∈ p.tasks[i]?, t.live → ∀ params ∈ t.call.placing?,
        NoBetYet i p.world → Unshared params i (ran? x = some i) p.world q.world) ∧
      ∀ n < p.world.bets.length, ∀ b ∈ p.world.bets[n]?, b.status = .voided →
        ∀ b' ∈ q.world.bets[n]?, b'.status = .voided)
    ⟨fun ⟨h₁, h₂⟩ => ⟨h₁, h₂⟩, fun h => ⟨h.room, h.voided⟩⟩

end Decidable

/-- Two bets in turn use up the cap of their session. -/
theorem wagers_within_in_turn : ∃ p, History Sample.site Uncrowded p ∧
    (p.world.bets.map fun b => (b.amountMicro, b.taken)) = [(10, true), (10, true)] ∧
      p.world.WithinLimits := by
  have h : Sample.shows Uncrowded Sample.inTurn (fun p =>
      (p.world.bets.map fun b => (b.amountMicro, b.taken)) = [(10, true), (10, true)]) = true := by
    decide +kernel
  obtain ⟨p, hp, hv⟩ := Sample.history_of_shows h
  exact ⟨p, hp, of_decide_eq_true hv, wagers_within hp⟩

/-- **Two bets that are checked at once share the room that is left**: the stakes exceed the cap. -/
theorem wagers_exceed_at_once : ∃ p, History Sample.site Anything p ∧ ¬ p.world.WithinLimits := by
  have h : Sample.shows Anything Sample.atOnce (fun p => ¬ p.world.WithinLimits) = true := by
    decide +kernel
  obtain ⟨p, hp, hv⟩ := Sample.history_of_shows h
  exact ⟨p, hp, of_decide_eq_true hv⟩

end YantraRgs
