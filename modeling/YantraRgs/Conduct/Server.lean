import YantraRgs.Conduct.Endpoints
import YantraRgs.Conduct.Roll
import YantraRgs.Conduct.RunJobs
import YantraRgs.Conduct.Start

/-! # The server keeps to the rules

Every call of the server may go on under the rules, whatever else is under way. So along a run that
meets the conditions of a policy the tables are sound, and every step is a move of one call, an
outside event, or leaves the world alone.

* **`Meets`** — the runs that meet the conditions of a policy.
* **`Orderly`** — which calls the rows of a state come from.
* **`conduct`** — the rules of all calls fit together.
* **`run_invariant`** — what every move and every outside event keeps holds all along a run. -/

namespace YantraRgs

open Await

variable {P : Policy} {A : State → Happening → State → Prop} {p q : State}
variable {i : Nat} {k : Call} {w w' : World}

/-- **The runs that meet the conditions of a policy**: whatever meets `A` meets them. -/
structure Meets (P : Policy) (A : State → Happening → State → Prop) : Prop where
  permit : ∀ {p i c q t}, A p (.run i c) q → p.tasks[i]? = some t →
    Permit P t.call p.world q.world
  engines : P.oneEngine → ∀ {p k q}, A p (.call k) q → ∀ t ∈ p.tasks, t.live →
    ∀ e ∈ k.engine?, ∀ e' ∈ t.call.engine?, e.key = e'.key → e = e'
  countedUp : P.oneEngine → P.countedUp → ∀ {p e polls q}, A p (.call (.iteration e polls)) q →
    p.world.CountedUp e.key
  fit : ∀ {p e q}, A p (.call (.start e)) q → Fit P p.world e.key
  closed : P.oneEngine → P.closed → ∀ {p e polls q}, A p (.call (.iteration e polls)) q →
    p.world.AllSettled e.key
  crashes : P.closed → P.env.DrawsCrashes
  configs : P.agreeing → ∀ {p y q}, A p (.env y) q → ∀ t ∈ p.tasks, t.live →
    t.call.shows = true → q.world.storedConfigs = p.world.storedConfigs
  verifies : P.agreeing → P.env.Verifies
  focus : ∀ {p k q}, A p (.call k) q → ∀ v, P.focus = some (p.tasks.length, v) → v = p.world

/-- **Which calls the rows of a state come from.** -/
structure Orderly (p : State) : Prop where
  stakes : ∀ b ∈ p.world.bets, b.betTransactionUuid.owner < p.calls.length
  active : ∀ {e : EngineRef} {id : Nat}, id ∈ p.world.activeIds e → ∃ k ∈ p.calls, ∃ e',
    k.drives = some e' ∧ e'.index = e.index ∧ p.world.Keyed e'
  answers : ∀ x ∈ p.world.answers, x.1 < p.calls.length

/-- A call that drives an engine runs in it. -/
theorem Call.engine?_of_drives {e : EngineRef} (h : k.drives = some e) : k.engine? = some e := by
  cases k <;> first | exact h | cases h

/-- The reference of an engine that is up carries its key. -/
theorem World.keyed_of_up {e : EngineRef} (h : w.up e = true) : w.Keyed e := by
  simp only [World.up, Option.any_eq_true, decide_eq_true_eq] at h
  obtain ⟨engine, he, hk, -⟩ := h
  exact ⟨engine, he, hk⟩

theorem EngineRef.eq_of {e e' : EngineRef} (hk : e.key = e'.key) (hi : e.index = e'.index) :
    e = e' := by
  cases e
  cases e'
  simp_all

/-- Nothing was made active in an engine that is started. -/
theorem Orderly.unused (h : Orderly p) {e : EngineRef}
    (hadm : (Call.start e).admitted p = true) : p.world.Unused e := by
  simp only [Call.admitted, Bool.and_eq_true, List.all_eq_true, decide_eq_true_eq] at hadm
  have hkeyed := World.keyed_of_up hadm.1
  refine ⟨hkeyed, List.eq_nil_iff_forall_not_mem.mpr fun id hid => ?_⟩
  obtain ⟨k, hk, e', hd, hidx, hk'⟩ := h.active hid
  obtain ⟨t, ht, rfl⟩ := List.mem_map.mp hk
  obtain rfl := EngineRef.eq_of (hkeyed.unique hk' hidx.symm) hidx.symm
  exact hadm.2 t ht hd

/-- How a call ends: a turn of the loop leaves every round of its engine settled, as far as the
policy knows. -/
def Call.Done (P : Policy) (k : Call) (w : World) : Prop :=
  match k with
  | .iteration e _ => Clear P e w
  | _ => True

/-- Every call may go on when it is called. -/
theorem code_go (hmeets : Meets P A) (hA : A p (.call k) q) (hadm : k.admitted p = true)
    (hord : Orderly p) (hs : Sound P p.world) :
    Walk P p.tasks.length k (k.code P.env) (fun _ w => k.Done P w) p.world := by
  have hfresh : NoBetYet p.tasks.length p.world := fun b hb ho =>
    absurd (hord.stakes b hb) (by rw [ho, Pool.calls, List.length_map]; exact Nat.lt_irrefl _)
  cases k with
  | start e =>
      exact start_go (hord.unused hadm).1 (fun _ => hord.unused hadm)
        (hmeets.fit hA) (hmeets.focus hA)
  | iteration e polls =>
      simp only [Call.admitted, Bool.and_eq_true] at hadm
      exact iteration_go hs ⟨World.keyed_of_up hadm.1.1, fun hP hC => hmeets.closed hP hC hA⟩
        (fun hP hC => hmeets.countedUp hP hC hA) hmeets.crashes
  | placeBet e params =>
      have hup : p.world.up e = true := by simpa [Call.admitted, Call.engine?] using hadm
      exact (placeBet_go hfresh (World.keyed_of_up hup)).then_answer
  | cashOut e params =>
      have hup : p.world.up e = true := by simpa [Call.admitted, Call.engine?] using hadm
      exact (cashOut_go (World.keyed_of_up hup)).then_answer
  | tick => exact tick_go
  | createSession input => exact create_go.then_answer
  | terminateSession sessionId reason operatorId => exact terminate_go.then_answer
  | rotateSeed sessionId clientSeed operatorId => exact rotateSeedRoute_go.then_answer
  | roundProof roundId operatorId =>
      exact (Walk.of_idle (Idle.forRound _ _)).then_answer
  | roundReplay roundId operatorId =>
      exact Go.bind_iff.mpr ((roundReplay_go hmeets.verifies).mono fun x _ hx =>
        answer_go fun hP _ => hx hP)
  | disputePack operatorId transactionUuid =>
      exact Go.bind_iff.mpr ((buildDisputePack_go hmeets.verifies).mono fun x _ hx =>
        answer_go fun hP _ => hx hP)

/-- A call that drives an engine starts when the engine is there and no other drives it. -/
theorem Call.admitted.alone {e : EngineRef} (h : k.admitted p = true) (hd : k.drives = some e) :
    p.world.Keyed e ∧ ∀ t ∈ p.tasks, t.live → t.call.drives ≠ some e := by
  cases k with
  | start e' =>
      obtain rfl := Option.some.inj hd
      simp only [Call.admitted, Bool.and_eq_true, List.all_eq_true, decide_eq_true_eq] at h
      exact ⟨World.keyed_of_up h.1, fun t ht _ => h.2 t ht⟩
  | iteration e' polls =>
      obtain rfl := Option.some.inj hd
      simp only [Call.admitted, Bool.and_eq_true, Bool.not_eq_true', busy, List.any_eq_false,
        decide_eq_true_eq, not_and] at h
      exact ⟨World.keyed_of_up h.1.1, fun t ht hl => h.2 t ht hl⟩
  | _ => cases hd

/-- A call that is admitted fits together with every call under way. -/
theorem compat_of_admitted (hmeets : Meets P A) (hA : A p (.call k) q)
    (hadm : k.admitted p = true) {t : Task World Choice Call} (ht : t ∈ p.tasks) (hl : t.live) :
    Compat P k t.call ∧ Compat P t.call k := by
  have hnot : ∀ e, k.engine? = some e → t.call.engine? = some e →
      ¬ (k.drives.isSome = true ∧ t.call.drives.isSome = true) := by
    rintro e he he' ⟨hd, hd'⟩
    obtain ⟨e₁, hd⟩ := Option.isSome_iff_exists.mp hd
    obtain ⟨e₂, hd'⟩ := Option.isSome_iff_exists.mp hd'
    obtain rfl : e₁ = e := Option.some.inj ((Call.engine?_of_drives hd).symm.trans he)
    obtain rfl : e₂ = e₁ := Option.some.inj ((Call.engine?_of_drives hd').symm.trans he')
    exact (Call.admitted.alone hadm hd).2 t ht hl hd'
  refine ⟨fun hP e e' he he' hkey => ?_, fun hP e e' he he' hkey => ?_⟩
  · obtain rfl := hmeets.engines hP hA t ht hl e he e' he' hkey
    exact ⟨rfl, hnot e he he'⟩
  · obtain rfl := hmeets.engines hP hA t ht hl e' he' e he hkey.symm
    exact ⟨rfl, fun ⟨hd, hd'⟩ => hnot e' he' he ⟨hd', hd⟩⟩

/-- **The rules of all calls of the server fit together.** -/
def conduct (hmeets : Meets P A) :
    Discipline (server P.env) fun p e q => A p e q ∧ Orderly p where
  inv := Sound P
  permit _ := Permit P
  envPermit _ _ _ := True
  envFits _ k w w' := P.agreeing → k.shows = true → w'.storedConfigs = w.storedConfigs
  compat := Compat P
  rely := Rely P
  guar := Move P
  done _ k w := k.Done P w
  permit_of h ht := hmeets.permit h.1 ht
  envPermit_of _ := trivial
  envFits_of h t ht hl hP hk := hmeets.configs hP h.1 t ht hl hk
  compat_of h hadm _ ht hl := compat_of_admitted hmeets h.1 hadm ht hl
  rely_refl _ _ w := (Same.refl w).rely
  rely_trans _ _ := Rely.trans
  guar_inv hw _ h := hw.move h
  env_inv hw _ h := hw.outer (outside_outer h)
  guar_rely hij hc hw hp h := Move.rely hij hc hw hp h
  env_rely _ _ hfits h _ := (outside_outer h).rely (outside_later h) hfits
  code_go h hadm hw := code_go hmeets h.1 hadm h.2 hw

/-! ## Runs -/

/-- **What one step of a run does**, as far as the world goes. -/
inductive Stepped (P : Policy) (p : State) (x : Happening) (q : State) : Prop
  | move (i : Nat) (c : Choice) (t : Task World Choice Call) (hx : x = .run i c)
      (ht : p.tasks[i]? = some t) (hl : t.live) (hp : Permit P t.call p.world q.world)
      (h : Move P i t.call p.world q.world)
  | outer (y : Outside) (hx : x = .env y) (h : p.world.outside y = some q.world)
  | stay (h : q.world = p.world)

/-- A step leads to a later world. -/
theorem Stepped.later {x : Happening} (h : Stepped P p x q) : Later p.world q.world := by
  cases h with
  | move i c t hx ht hl hp h => exact h.later
  | outer y hx h => exact outside_later h
  | stay h => exact h ▸ .refl _

/-- The rows keep to the calls they come from. -/
theorem Orderly.step {x : Happening} (h : Orderly p) (hs : (server P.env).step p x = some q)
    (hx : Stepped P p x q) : Orderly q := by
  have hcalls := System.step_calls_grow hs
  have hbets : ∀ b ∈ q.world.bets, b.betTransactionUuid.owner < p.calls.length := by
    intro b' hb'
    cases hx with
    | move i c t hx ht hl hp hmove =>
        obtain ⟨n, hn⟩ := List.mem_iff_getElem?.mp hb'
        rcases hmove.bet_origin hn with ⟨b, hb, rfl | ⟨hstep, -⟩⟩ | ⟨-, hnew⟩
        · exact h.stakes _ (List.mem_of_getElem? hb)
        · rw [hstep.later.betTransactionUuid]
          exact h.stakes b (List.mem_of_getElem? hb)
        · rw [hnew.owner, Pool.calls, List.length_map]
          exact (List.getElem?_eq_some_iff.mp ht).1
    | outer y hx hy => exact h.stakes b' ((outside_outer hy).bets ▸ hb')
    | stay hw => exact h.stakes b' (hw ▸ hb')
  have hanswers : ∀ x ∈ q.world.answers, x.1 < p.calls.length := by
    rintro ⟨j, x⟩ hj
    cases hx with
    | move i c t hx ht hl hp hmove =>
        rcases hmove.answer_origin hj with hj | ⟨rfl, -⟩
        · exact h.answers _ hj
        · rw [Pool.calls, List.length_map]
          exact (List.getElem?_eq_some_iff.mp ht).1
    | outer y hx hy => exact h.answers _ ((outside_outer hy).answers ▸ hj)
    | stay hw => exact h.answers _ (hw ▸ hj)
  refine ⟨fun b hb => Nat.lt_of_lt_of_le (hbets b hb) hcalls.length_le, fun {e id} hid => ?_,
    fun x hx => Nat.lt_of_lt_of_le (hanswers x hx) hcalls.length_le⟩
  have hact : ∃ k ∈ p.calls, ∃ e', k.drives = some e' ∧ e'.index = e.index ∧
      p.world.Keyed e' := by
    cases hx with
    | move i c t hx ht hl hp hmove =>
        rcases hmove.active_origin hid with hid | ⟨e', polls, hk, hidx, hkeyed, -⟩
        · exact h.active hid
        · exact ⟨t.call, List.mem_map_of_mem (List.mem_of_getElem? ht), e', by rw [hk]; rfl, hidx,
            hkeyed⟩
    | outer y hx hy => exact h.active ((outside_outer hy).active e ▸ hid)
    | stay hw => exact h.active (hw ▸ hid)
  obtain ⟨k, hk, e', hd, hidx, hkeyed⟩ := hact
  exact ⟨k, hcalls.subset hk, e', hd, hidx, hx.later.keyed hkeyed⟩

/-- A state in which the rules are kept. -/
structure Ready (hmeets : Meets P A) (p : State) : Prop where
  ok : (conduct hmeets).Ok p
  orderly : Orderly p

/-- Nothing is wrong before anything happened. -/
theorem Ready.initial (hmeets : Meets P A) (operators : List OperatorRow)
    (credentials : List OperatorCredential) (gameConfigs : List OperatorGameConfig) :
    Ready hmeets (State.initial operators credentials gameConfigs) where
  ok := Discipline.ok_of_no_tasks (Sound.initial operators credentials gameConfigs)
  orderly := ⟨fun b hb => (nomatch hb), fun {e id} hid => by
    simp [State.initial, World.initial, World.activeIds, World.engine?] at hid,
    fun x hx => (nomatch hx)⟩

/-- One step from a state in which the rules are kept. -/
theorem Ready.step {hmeets : Meets P A} {x : Happening} (h : Ready hmeets p)
    (hs : (server P.env).step p x = some q) (hA : A p x q) :
    Ready hmeets q ∧ Stepped P p x q := by
  obtain ⟨hok, ⟨i, c, t, hx, ht, hl, hp, hg⟩ | ⟨y, hx, -, hy⟩ | hw⟩ := h.ok.step hs ⟨hA, h.orderly⟩
  · have hstep : Stepped P p x q := .move i c t hx ht hl hp hg
    exact ⟨⟨hok, h.orderly.step hs hstep⟩, hstep⟩
  · have hstep : Stepped P p x q := .outer y hx hy
    exact ⟨⟨hok, h.orderly.step hs hstep⟩, hstep⟩
  · have hstep : Stepped P p x q := .stay hw
    exact ⟨⟨hok, h.orderly.step hs hstep⟩, hstep⟩

/-- A turn of the loop that comes to its end leaves every round of its engine settled, as far as the
policy knows. -/
theorem Ready.turned {hmeets : Meets P A} {i : Nat} {c : Choice} {e : EngineRef} {polls : Nat}
    {t : Task World Choice Call} (h : Ready hmeets p)
    (hs : (server P.env).step p (.run i c) = some q) (hA : A p (.run i c) q)
    (ht : q.tasks[i]? = some t) (hl : ¬ t.live) (hk : t.call = .iteration e polls) :
    Clear P e q.world := by
  have hdone : t.call.Done P q.world := h.ok.step_done ⟨hA, h.orderly⟩ hs ht hl
  rwa [hk] at hdone

/-- **Along a run on which an invariant is kept** the conditions of a policy are met, and the rules
are kept: the invariant may rest on the rules, and the conditions on the invariant. -/
theorem run_ready {hmeets : Meets P A} {B : State → Happening → State → Prop} {J : State → Prop}
    (h : Ready hmeets p) (hr : (server P.env).Run B p q) (h₀ : J p)
    (hA : ∀ {p x q}, (server P.env).step p x = some q → B p x q → J p → A p x q)
    (hstep : ∀ {p x q}, (server P.env).step p x = some q → B p x q → Ready hmeets p →
      Stepped P p x q → J p → J q) : Ready hmeets q ∧ J q :=
  hr.invariant (I := fun r => Ready hmeets r ∧ J r) ⟨h, h₀⟩ fun p x q hs hB ⟨hready, hJ⟩ => by
    obtain ⟨hready', hx⟩ := hready.step hs (hA hs hB hJ)
    exact ⟨hready', hstep hs hB hready hx hJ⟩

/-- **Along a run that meets the conditions of a policy** the rules are kept, and so is what every
step keeps. -/
theorem run_invariant {hmeets : Meets P A} {J : State → Prop} (h : Ready hmeets p)
    (hr : (server P.env).Run A p q) (h₀ : J p)
    (hstep : ∀ p x q, (server P.env).step p x = some q → A p x q → Sound P p.world → Orderly p →
      Stepped P p x q → J p → J q) : Ready hmeets q ∧ J q :=
  run_ready h hr h₀ (fun _ hA _ => hA) fun hs hA hready hx hJ =>
    hstep _ _ _ hs hA hready.ok.inv hready.orderly hx hJ

end YantraRgs
