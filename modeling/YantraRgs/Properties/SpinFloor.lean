import YantraRgs.Properties.Runs
import YantraRgs.Properties.SpinChecks

/-! # The time between two spins

In a jurisdiction with a least time between spins, a bet of a game without a flight is checked against
the latest bet of its session in another round that was accepted or settled. The check does not see a
bet that is pending, failed or voided, nor one that is placed or accepted after it was made, and it takes
two bets of one millisecond for one.

* **`SpinsApart`** — the property; **`Spaced`** — the invariant behind it.
* **`Unhurried`** — the condition on the steps of a run.
* **`spins_apart`** — the property along every run that meets the condition. -/

namespace YantraRgs

open Await

/-- No two bets that were not rejected follow each other too fast. -/
def World.Spaced (env : Env) (w : World) : Prop :=
  ∀ (m n : Nat) (b b' : Bet), m < n → w.bets[m]? = some b → w.bets[n]? = some b' →
    b'.status ≠ .rejected → w.live env b'.roundId = false → w.Apart env b b'

/-- **Any two bets of a session in different rounds of games without a flight, whose stakes were taken,
were placed at least the session's least time apart.** -/
def SpinsApart (env : Env) (w : World) : Prop :=
  ∀ b ∈ w.bets, ∀ b' ∈ w.bets, b.sessionId = b'.sessionId → b.roundId ≠ b'.roundId →
    b.status.taken = true → b'.status.taken = true → w.live env b.roundId = false →
      w.live env b'.roundId = false →
        b.placedAt + w.floorMs b.sessionId ≤ b'.placedAt ∨
          b'.placedAt + w.floorMs b'.sessionId ≤ b.placedAt

/-- **The condition on a step**: it leaves room to every spin that is being checked. -/
def Unhurried (env : Env) (p : State) (x : Happening) (q : State) : Prop :=
  ∀ i < p.tasks.length, ∀ t ∈ p.tasks[i]?, t.live → ∀ spin ∈ t.call.spin? env,
    NoBetYet i p.world →
      Unrivalled env spin.1 spin.2.sessionId i (ran? x = some i) p.world q.world

/-! ## Runs -/

section Runs

variable {env : Env} {p q : State} {x : Happening}

/-- Whether a call is a spin. -/
def Call.Spins (env : Env) (k : Call) : Prop := (k.spin? env).isSome = true

/-- A spin places a bet in a game without a flight. -/
theorem Call.Spins.cases {k : Call} (h : k.Spins env) :
    ∃ e params, k = .placeBet e params ∧ (GameEngine.live? env e).isSome = false := by
  unfold Call.Spins Call.spin? at h
  split at h
  · split at h
    · cases h
    · exact ⟨_, _, rfl, Bool.eq_false_of_not_eq_true (by assumption)⟩
  · cases h

/-- **The invariant behind the property**: bets are in the order of time and spaced, and every spin
under way may go on. -/
structure Spinning (env : Env) (p : State) : Prop where
  dated : p.world.Dated
  spaced : p.world.Spaced env
  watched : Watched (spinRules env) (Call.Spins env) p

theorem unhurried_meets : Meets (.free env) (Unhurried env) where
  permit _ _ := .of_free id id id id
  engines h := h.elim
  countedUp h := h.elim
  fit _ := ⟨fun h => h.elim, fun h => h.elim⟩
  closed h := h.elim
  crashes h := h.elim
  configs h := h.elim
  verifies h := h.elim
  focus _ _ h := nomatch h

/-- A step leaves room to a spin under way, unless it is its own. -/
theorem Stepped.spinRely (h : Stepped (.free env) p x q) (hA : Unhurried env p x q) {i : Nat}
    {t : Task World Choice Call} (ht : p.tasks[i]? = some t) (hl : t.live)
    (hother : ∀ c, x ≠ .run i c) : ∀ spin ∈ t.call.spin? env,
      SpinRely env i spin.1 spin.2.sessionId p.world q.world := by
  intro spin hspin
  have hi := (List.getElem?_eq_some_iff.mp ht).1
  have hnot : ran? x ≠ some i := by
    intro hx
    cases x with
    | run j c => exact hother c (congrArg (Event.run · c) (Option.some.inj hx))
    | _ => cases hx
  refine ⟨h.paced, fun hnone b' hb' ho => ?_, fun hnone => (hA i hi t ht hl spin hspin hnone).active,
    fun hnone _ roundId hround b' hb' hrival hc => ?_⟩
  · obtain ⟨n, hn⟩ := List.mem_iff_getElem?.mp hb'
    rcases h.bet_origin hn with ⟨b, hb, hlater⟩ | ⟨j, c, _, hx, -, -, hnew⟩
    · exact hnone b (List.mem_of_getElem? hb) (hlater.betTransactionUuid ▸ ho)
    · obtain rfl : j = i := hnew.owner.symm.trans ho
      exact hother c hx
  · obtain ⟨n, hn⟩ := List.mem_iff_getElem?.mp hb'
    obtain ⟨b, hb, hcounts⟩ := (Option.any_eq_true ..).mp
      ((hA i hi t ht hl spin hspin hnone).counted hnot roundId hround n
        (List.getElem?_eq_some_iff.mp hn).1 b' hn hrival hc)
    obtain ⟨b'', hb'', hlater⟩ := h.paced.later.bet hb
    obtain rfl := Option.some.inj (hn.symm.trans hb'')
    exact ⟨b, List.mem_of_getElem? hb, hlater, hcounts⟩

/-- What a spin does is permitted. -/
theorem Stepped.spinPermit (h : Stepped (.free env) p x q) (hA : Unhurried env p x q) {i : Nat}
    {c : Choice} {t : Task World Choice Call} (hx : x = .run i c) (ht : p.tasks[i]? = some t)
    (hl : t.live) : (spinRules env i t.call).permit p.world q.world := by
  refine ⟨?_, fun spin hspin hnone => ?_⟩
  · cases h with
    | move j c' t' hx' ht' hl' hp' hmove =>
        obtain ⟨rfl, rfl⟩ := Event.run.inj (hx'.symm.trans hx)
        obtain rfl := Option.some.inj (ht'.symm.trans ht)
        exact hmove
    | outer y hy hout => cases hx.symm.trans hy
    | stay hw => exact .idle (hw ▸ .refl _)
  · have hrun : ran? x = some i := by rw [hx]; rfl
    have hunrivalled := hA i (List.getElem?_eq_some_iff.mp ht).1 t ht hl spin hspin hnone
    simpa only [hrun] using hunrivalled

/-- **A step keeps the bets spaced**: what is new was checked. -/
theorem Spinning.spaced_step (h : Spinning env p) (hsound : Sound (.free env) p.world)
    (hx : Stepped (.free env) p x q)
    (hguar : ∀ i c t, x = .run i c → p.tasks[i]? = some t → t.call.Spins env → NoBetYet i p.world →
      NewApart env p.world q.world) : q.world.Spaced env := by
  intro m n b b' hmn hb hb' hrej hlive
  have hsession : ∀ {c : Bet}, p.world.bets[m]? = some c →
      (p.world.sessions[c.sessionId]?).isSome = true := by
    intro c hc
    obtain ⟨s, hs⟩ := hsound.betSession (List.mem_of_getElem? hc)
    rw [hs]
    rfl
  rcases hx.bet_origin hb' with ⟨b₀', hb₀', hlater'⟩ | ⟨i, c, t, hrun, ht, rfl, hnew⟩
  · rcases hx.bet_origin hb with ⟨b₀, hb₀, hlater⟩ | ⟨-, -, -, -, -, rfl, -⟩
    · rw [hlater'.roundId] at hlive
      exact hx.paced.apart (hsession hb₀) hlater hlater'
        (h.spaced m n b₀ b₀' hmn hb₀ hb₀' (hlater'.not_rejected hrej) (hx.paced.live hlive))
    · -- a row that is not the last one is not new
      have hlt := (List.getElem?_eq_some_iff.mp hb₀').1
      omega
  · rcases hx.bet_origin hb with ⟨b₀, hb₀, hlater⟩ | ⟨-, -, -, -, -, rfl, -⟩
    · obtain ⟨e, params, hcall⟩ := hnew.placing
      have hreach := hnew.reach
      rw [hcall] at hreach
      obtain ⟨r, hr, hkey⟩ := hsound.activeKey hreach.1 hreach.2
      have hspins : t.call.Spins env := by
        have hgame : r.gameCode = e.key.gameCode := congrArg (fun k => k.gameCode) hkey
        have hlive' := hx.paced.live hlive
        rw [World.live, hr, Option.any_some, hgame] at hlive'
        rw [hcall, Call.Spins, Call.spin?_placeBet hlive']
        rfl
      exact hx.paced.apart (hsession hb₀) hlater (.refl b')
        (hguar i c t hrun ht hspins hnew.sole b' hb' b₀ (List.mem_of_getElem? hb₀))
    · exact absurd hmn (Nat.lt_irrefl _)

/-- **A step keeps the invariant.** -/
theorem Spinning.step {name : Currency → String}
    (hname : env.checkJurisdictionRules = checkJurisdictionRules name) (h : Spinning env p)
    (hs : (server env).step p x = some q) (hA : Unhurried env p x q)
    (hsound : Sound (.free env) p.world) (hord : Orderly p) (hx : Stepped (.free env) p x q) :
    Spinning env q := by
  have hrefl : ∀ i k w, (spinRules env i k).rely w w := fun i k w _ _ => .refl w
  have hdated := hx.dated h.dated
  refine ⟨hdated, h.spaced_step hsound hx fun i c t hrun ht hk => ?_, ?_⟩
  · subst hrun
    obtain ⟨k, β, run, next, b, w, hi, -, -⟩ := System.runTask_cases hs
    obtain rfl := Option.some.inj (hi.symm.trans ht)
    exact h.watched.guar hs ht hk (hrefl _ _ _) h.dated (hx.spinPermit hA rfl ht rfl)
  · refine h.watched.step hs (fun i k w _ => hrefl i k w)
      (fun i k _ _ _ _ hab hbc spin hspin => (hab spin hspin).trans (hbc spin hspin))
      (fun _ _ _ => ⟨h.dated, hdated⟩) (fun i t ht hl _ hother => hx.spinRely hA ht hl hother)
      (fun i c t hrun ht _ => ?_) fun k hcall hk => ?_
    · subst hrun
      obtain ⟨k, β, run, next, b, w, hi, -, -⟩ := System.runTask_cases hs
      obtain rfl := Option.some.inj (hi.symm.trans ht)
      exact hx.spinPermit hA rfl ht rfl
    · obtain ⟨e, params, rfl, hspin⟩ := hk.cases
      have hfresh : NoBetYet p.tasks.length p.world := fun b hb ho =>
        absurd (hord.stakes b hb) (by rw [ho, Pool.calls, List.length_map]; exact Nat.lt_irrefl _)
      exact Go.bind_iff.mpr ((placeBet_spin hspin hname hfresh).mono fun a w _ =>
        Go.request fun _ _ _ _ => ⟨fun _ => .of_bets rfl, fun _ => trivial⟩)

/-- **Spins are apart** where the bets are spaced. -/
theorem World.Spaced.spinsApart {w : World} (h : w.Spaced env) : SpinsApart env w := by
  have htaken : ∀ {b : Bet}, b.status.taken = true → b.status ≠ .rejected := fun ht hrej => by
    rw [hrej] at ht
    cases ht
  intro b hb b' hb' hsession hround ht ht' hlive hlive'
  obtain ⟨m, hm⟩ := List.mem_iff_getElem?.mp hb
  obtain ⟨n, hn⟩ := List.mem_iff_getElem?.mp hb'
  rcases Nat.lt_trichotomy m n with hmn | rfl | hnm
  · exact .inl (h m n b b' hmn hm hn (htaken ht') hlive' hsession hround (htaken ht) hlive)
  · exact absurd (congrArg Bet.roundId (Option.some.inj (hm.symm.trans hn))) hround
  · exact .inr (h n m b' b hnm hn hm (htaken ht) hlive hsession.symm hround.symm (htaken ht') hlive')

end Runs

/-- **The floor on the speed of spins.** In every run of any calls in any order, in which every spin
that is being checked is left room to: any two bets of a session in different rounds, whose stakes were
taken, were placed at least the session's least time apart. -/
theorem spins_apart {name : Currency → String} {env : Env} {p : State}
    (h : History (env.regulated name) (Unhurried (env.regulated name)) p) :
    SpinsApart (env.regulated name) p.world := by
  refine ((History.invariant (J := Spinning (env.regulated name)) unhurried_meets h
    (fun _ _ _ => ⟨⟨fun b hb => (nomatch hb), fun _ hb => (nomatch hb)⟩, fun _ _ _ _ _ hb => (nomatch hb),
      fun i t ht => (nomatch ht)⟩) fun _ _ _ hs hA hsound hord hx hJ => ?_).2).spaced.spinsApart
  exact hJ.step rfl hs hA hsound hord hx

namespace Sample

/-- The server under the rules of the jurisdictions. -/
def regulated : Env := site.regulated currencies

/-- Betting is open in a first round (call 1), and ann has a session in Malta (call 2). -/
def seated : List Happening :=
  boot 0 0 0 ++ .call (.iteration (engine 0 0) 0) :: run 1 8 ++
    .call (.createSession ⟨0, .named "ann", 0, 0, "MT", .real, none, .none, none⟩) :: run 2 2

/-- Her bet was accepted (call `i`): the request for its stake is `sent`, the answer to it `reply`. -/
def spun (i sent reply : Nat) (selection : BetSelection) : List Happening :=
  .call (bet 0 selection) :: run i 13 ++ .env (.deliver sent ⟨true, .ok, some 90⟩ none) ::
    .run i (.reply reply) :: run i 12

/-- After some time, betting is open in a second round (call 4). -/
def reopened (ms : Millis) : List Happening :=
  .call (.iteration (engine 0 0) 0) :: .run 4 (.pick 0) :: run 4 6 ++ [.env (.elapse ms)]

/-- A losing spin, and another one after the least time of Malta. -/
def patient : List Happening :=
  seated ++ spun 3 0 0 (.dice .high) ++ run 1 21 ++ reopened 2500 ++ spun 5 1 1 (.dice .low)

/-- A winning spin whose credit is not answered, and another one after a second. -/
def hurried : List Happening :=
  seated ++ spun 3 0 0 (.dice .low) ++ run 1 21 ++ .run 1 .timeout :: run 1 11 ++ reopened 1000 ++
    spun 5 2 1 (.dice .low)

/-- When the bets were placed, and what became of them. -/
def spins (p : State) : List (Millis × BetStatus) := p.world.bets.map fun b => (b.placedAt, b.status)

end Sample

section Decidable

set_option synthInstance.maxSize 512

variable {env : Env}

instance (w : World) (sessionId : Nat) : Decidable (w.Exempt sessionId) :=
  inferInstanceAs (Decidable ((w.sessions[sessionId]?).isSome = true ∧ w.floorMs sessionId = 0))

instance (w : World) (sessionId roundId : Nat) (b : Bet) :
    Decidable (w.Rival env sessionId roundId b) :=
  inferInstanceAs (Decidable (b.sessionId = sessionId ∧ b.roundId ≠ roundId ∧ b.status ≠ .rejected ∧
    w.live env b.roundId = false ∧ w.now < b.placedAt + w.floorMs sessionId))

instance (e : EngineRef) (sessionId i : Nat) (own : Prop) [Decidable own] (w w' : World) :
    Decidable (Unrivalled env e sessionId i own w w') :=
  decidable_of_iff
    ((¬ w'.Exempt sessionId → w'.activeIds e = w.activeIds e) ∧
      (¬ own → ∀ roundId ∈ (w.activeIds e).getLast?, ∀ n < w'.bets.length, ∀ b' ∈ w'.bets[n]?,
        w'.Rival env sessionId roundId b' → b'.counts = true → (w.bets[n]?).any Bet.counts = true) ∧
      (own → 0 < w.floorMs sessionId → ∀ roundId ∈ (w.activeIds e).getLast?, ∀ b ∈ w.bets,
        b.sessionId = sessionId → b.roundId ≠ roundId → b.status ≠ .rejected → b.placedAt ≠ w.now) ∧
      (own → ¬ NoBetYet i w' → ∀ roundId ∈ (w.activeIds e).getLast?, ∀ b ∈ w.bets,
        w.Rival env sessionId roundId b → b.counts = true))
    ⟨fun ⟨h₁, h₂, h₃, h₄⟩ => ⟨h₁, h₂, h₃, h₄⟩, fun h => ⟨h.active, h.counted, h.instant, h.seen⟩⟩

instance (p : State) (x : Happening) (q : State) : Decidable (Unhurried env p x q) :=
  inferInstanceAs (Decidable (∀ i < p.tasks.length, ∀ t ∈ p.tasks[i]?, t.live →
    ∀ spin ∈ t.call.spin? env, NoBetYet i p.world →
      Unrivalled env spin.1 spin.2.sessionId i (ran? x = some i) p.world q.world))

end Decidable

/-- Two spins in different rounds, both taken, at the least time of their jurisdiction. -/
theorem spins_apart_patient : ∃ p, History Sample.regulated (Unhurried Sample.regulated) p ∧
    Sample.spins p = [(0, .settled), (2500, .accepted)] ∧ SpinsApart Sample.regulated p.world := by
  have h : ((server Sample.regulated).exec (Unhurried Sample.regulated) Sample.start
      Sample.patient).map Sample.spins = some [(0, .settled), (2500, .accepted)] := by decide +kernel
  obtain ⟨p, hp, hv⟩ := System.Run.of_exec_map h
  have hp : History Sample.regulated (Unhurried Sample.regulated) p := ⟨_, _, _, hp⟩
  exact ⟨p, hp, hv, spins_apart hp⟩

set_option synthInstance.maxSize 512 in
/-- **A bet whose win is owed is not seen**: the next spin follows it after a second. -/
theorem owed_overtaken : ∃ p, History Sample.regulated Anything p ∧
    ¬ SpinsApart Sample.regulated p.world := by
  have h : ((server Sample.regulated).exec Anything Sample.start Sample.hurried).map (fun p =>
      p.world.bets.map fun b => (b.placedAt, b.sessionId, b.roundId, b.status.taken,
        p.world.live Sample.regulated b.roundId, p.world.floorMs b.sessionId)) =
          some [(0, 1, 0, true, false, 2500), (1000, 1, 1, true, false, 2500)] := by decide +kernel
  obtain ⟨p, hp, hv⟩ := System.Run.of_exec_map h
  refine ⟨p, ⟨_, _, _, hp⟩, fun hapart => ?_⟩
  obtain ⟨b, l, hbets, hb, hl⟩ := List.map_eq_cons_iff.mp hv
  obtain ⟨b', l', rfl, hb', -⟩ := List.map_eq_cons_iff.mp hl
  simp only [Prod.mk.injEq] at hb hb'
  obtain ⟨hat, hs, hround, ht, hlive, hfloor⟩ := hb
  obtain ⟨hat', hs', hround', ht', hlive', hfloor'⟩ := hb'
  rcases hapart b (by simp [hbets]) b' (by simp [hbets]) (by rw [hs, hs'])
    (by rw [hround, hround']; decide) ht ht' hlive hlive' with hle | hle
  · rw [hat, hat', hfloor] at hle
    exact absurd hle (by decide)
  · rw [hat, hat', hfloor'] at hle
    exact absurd hle (by decide)

end YantraRgs
