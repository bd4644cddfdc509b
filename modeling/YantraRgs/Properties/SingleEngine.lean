import YantraRgs.Await.RelyGuarantee
import YantraRgs.Services.EngineRegistry

/-! # One live engine per key

At most one engine of a key is started and not stopped, as long as the registry's map has no engine
of the key whenever a new one is stored, and as long as `stopAll` forgets only engines that have
stopped. Two calls of `ensure` that look the key up before either stores its engine make two live
engines, and the second one resumes while the first one has a round open.

* **`Sound`** — the invariant: a live engine is the one of the map.
* **`Unoccupied`** — the condition.
* **`single_live`** — the property along every run that meets it. -/

namespace YantraRgs.EngineRegistry

open Await

variable {env : Env} {i j : Nat} {w w' : World}

/-- **At most one engine of a key is live**, and no engine of a key resumes while another one of the
key has a round open. -/
structure World.SingleLive (w : World) : Prop where
  one : ∀ (m n : Nat) (e e' : LiveEngine), w.made[m]? = some e → w.made[n]? = some e' →
    e.live = true → e'.live = true → e.key = e'.key → m = n
  resuming : ∀ e ∈ w.made, ∀ e' ∈ w.made, e.key = e'.key → e.status = .resuming →
    e'.openRound = false

/-- **The invariant**: a live engine is the one that the map has for its key. -/
structure Sound (w : World) : Prop where
  live : ∀ (n : Nat) (e : LiveEngine), w.made[n]? = some e → e.live = true →
    w.get e.key = some n
  open' : ∀ e ∈ w.made, e.openRound = true → e.status = .running ∨ e.status = .stopping

/-- **The condition on one step**: an engine is stored only when the map has none of its key, and
the map is emptied only of engines that are not live. -/
def Permit (w w' : World) : Prop :=
  (∀ e ∈ w'.made.drop w.made.length, w.get e.key = none) ∧
    (w'.engines = [] → ∀ x ∈ w.engines, ∀ e ∈ w.made[x.2]?, e.live = false)

/-- **One action** of call `i`. -/
inductive Move (i : Nat) (w : World) : World → Prop
  | idle : Move i w w
  | launch (key : EngineKey) (cfg : EngineConfig) (gameConfig : GameMathConfig) :
      Move i w (w.addEngine key cfg gameConfig i)
  | finish (n : Nat) (e : LiveEngine) (status : Status) (he : w.made[n]? = some e)
      (hs : e.status = .resuming) (hi : e.starter = i)
      (hn : status = .running ∨ status = .failed) :
      Move i w (w.updateEngine n fun engine => { engine with status })
  | stop : Move i w w.stopEngines
  | clear : Move i w { w with engines := [] }

/-- What call `i` may rely on: an engine that it starts stays as it is. -/
def Rely (i : Nat) (w w' : World) : Prop :=
  ∀ (n : Nat) (e : LiveEngine), w.made[n]? = some e → e.status = .resuming → e.starter = i →
    w'.made[n]? = some e

/-- The invariant gives the property. -/
theorem Sound.singleLive (hw : Sound w) : w.SingleLive where
  one m n e e' he he' hl hl' hk := by
    have h := hw.live m e he hl
    rw [hk, hw.live n e' he' hl'] at h
    exact (Option.some.inj h).symm
  resuming e he e' he' hk hs := by
    obtain ⟨m, hm⟩ := List.mem_iff_getElem?.mp he
    obtain ⟨n, hn⟩ := List.mem_iff_getElem?.mp he'
    by_contra hopen
    have hopen : e'.openRound = true := by simpa using hopen
    have hs' := hw.open' e' he' hopen
    have h := hw.live m e hm (by simp [LiveEngine.live, hs])
    rw [hk, hw.live n e' hn (by simpa [LiveEngine.live] using .inr hs')] at h
    obtain rfl := Option.some.inj h
    rw [hm] at hn
    obtain rfl := Option.some.inj hn
    rw [hs] at hs'
    rcases hs' with hs' | hs' <;> cases hs'

/-! ## The invariant is kept -/

@[simp] theorem get_addEngine (key key' : EngineKey) (cfg : EngineConfig)
    (gameConfig : GameMathConfig) : (w.addEngine key cfg gameConfig i).get key' =
      if key' = key then some w.made.length else w.get key' := by
  simp only [World.get, World.addEngine, List.find?_cons]
  by_cases hk : key = key'
  · simp [hk]
  · have hk' : ¬ key' = key := fun h => hk h.symm
    simp only [hk, decide_false, if_neg hk', List.find?_filter]
    congr 2
    funext x
    by_cases hx : x.1 = key' <;> simp [hx, hk']

/-- An engine after one of them was changed. -/
theorem made_updateEngine {n m : Nat} {f : LiveEngine → LiveEngine} {e' : LiveEngine}
    (h : (w.updateEngine n f).made[m]? = some e') :
    ∃ e, w.made[m]? = some e ∧ e' = if n = m then f e else e := by
  simp only [World.updateEngine, List.getElem?_modify] at h
  obtain ⟨e, he, rfl⟩ := Option.map_eq_some_iff.mp h
  exact ⟨e, he, rfl⟩

/-- An engine after the engines of the map were told to stop. -/
theorem made_stopEngines {m : Nat} {e' : LiveEngine} (h : w.stopEngines.made[m]? = some e') :
    ∃ e, w.made[m]? = some e ∧ (e' = e ∨ (e.status = .running ∧
      e' = { e with status := .stopping })) := by
  simp only [World.stopEngines, List.getElem?_map, List.getElem?_zipIdx, Option.map_map] at h
  obtain ⟨e, he, hf⟩ := Option.map_eq_some_iff.mp h
  refine ⟨e, he, ?_⟩
  simp only [Function.comp] at hf
  split at hf
  · exact .inr ⟨‹_ ∧ _›.2, hf.symm⟩
  · exact .inl hf.symm

/-- The invariant is kept when one engine changes its status or its round, not its key, and becomes
live only if it was. -/
theorem Sound.updateEngine (hw : Sound w) {n : Nat} {f : LiveEngine → LiveEngine}
    (hkey : ∀ e, (f e).key = e.key)
    (hf : ∀ e, w.made[n]? = some e → ((f e).live = true → e.live = true) ∧
      ((f e).openRound = true → (f e).status = .running ∨ (f e).status = .stopping)) :
    Sound (w.updateEngine n f) where
  live m e' he' hl := by
    obtain ⟨e, he, rfl⟩ := made_updateEngine he'
    split at hl
    · rename_i hnm
      subst hnm
      rw [if_pos rfl, hkey]
      exact hw.live n e he ((hf e he).1 hl)
    · rename_i hnm
      rw [if_neg hnm]
      exact hw.live m e he hl
  open' e' he' ho := by
    obtain ⟨m, hm⟩ := List.mem_iff_getElem?.mp he'
    obtain ⟨e, he, rfl⟩ := made_updateEngine hm
    split at ho
    · rename_i hnm
      subst hnm
      rw [if_pos rfl]
      exact (hf e he).2 ho
    · rename_i hnm
      rw [if_neg hnm]
      exact hw.open' e (List.mem_of_getElem? he) ho

/-- **The invariant is kept by every permitted action.** -/
theorem Sound.move (hw : Sound w) (hp : Permit w w') (h : Move i w w') : Sound w' := by
  cases h with
  | idle => exact hw
  | launch key cfg gameConfig =>
      have hfree : w.get key = none := hp.1 ⟨key, cfg, gameConfig, .resuming, false, i⟩ (by
        simp [World.addEngine])
      constructor
      · intro n e he hl
        rw [get_addEngine]
        rcases Table.getElem?_concat_cases he with he | ⟨rfl, rfl⟩
        · have hget := hw.live n e he hl
          rw [if_neg fun hk => by rw [hk, hfree] at hget; cases hget]
          exact hget
        · exact if_pos rfl
      · intro e he ho
        rcases List.mem_append.mp he with he | he
        · exact hw.open' e he ho
        · obtain rfl := List.mem_singleton.mp he
          cases ho
  | finish n e status he hs hi hn =>
      refine hw.updateEngine (fun _ => rfl) fun e' he' => ⟨fun _ => ?_, fun ho => ?_⟩
      · rw [he] at he'
        obtain rfl := Option.some.inj he'
        simp [LiveEngine.live, hs]
      · rw [he] at he'
        obtain rfl := Option.some.inj he'
        have := hw.open' e (List.mem_of_getElem? he) ho
        rw [hs] at this
        rcases this with h | h <;> cases h
  | stop =>
      constructor
      · intro n e' he' hl
        obtain ⟨e, he, rfl | ⟨hs, rfl⟩⟩ := made_stopEngines he'
        · exact hw.live n _ he hl
        · exact hw.live n e he (by simp [LiveEngine.live, hs])
      · intro e' he' ho
        obtain ⟨n, hn⟩ := List.mem_iff_getElem?.mp he'
        obtain ⟨e, he, rfl | ⟨hs, rfl⟩⟩ := made_stopEngines hn
        · exact hw.open' _ (List.mem_of_getElem? he) ho
        · exact .inr rfl
  | clear =>
      refine ⟨fun n e he hl => ?_, hw.open'⟩
      -- a live engine would be one that the map forgets
      obtain ⟨x, hx, hxn⟩ := Option.map_eq_some_iff.mp (hw.live n e he hl)
      have := hp.2 rfl x (List.mem_of_find?_eq_some hx) e (by rw [hxn]; exact he)
      rw [hl] at this
      cases this

/-- **The invariant is kept by what happens outside.** -/
theorem Sound.outside (hw : Sound w) {x : Outside} (h : w.outside x = some w') : Sound w' := by
  cases x with
  | beginRound n =>
      simp only [World.outside] at h
      split at h
      · rename_i hrun
        obtain rfl : _ = w' := by simpa using h
        refine hw.updateEngine (fun _ => rfl) fun e he => ⟨fun hl => hl, fun _ => .inl ?_⟩
        simpa [he] using hrun
      · cases h
  | settleRound n =>
      simp only [World.outside] at h
      split at h
      · obtain rfl : _ = w' := by simpa using h
        exact hw.updateEngine (fun _ => rfl) fun e he => ⟨fun hl => hl, by simp⟩
      · cases h
  | endLoop n =>
      simp only [World.outside] at h
      split at h
      · obtain rfl : _ = w' := by simpa using h
        exact hw.updateEngine (fun _ => rfl) fun e he => ⟨by simp [LiveEngine.live], by simp⟩
      · cases h
  | configure killSwitch configs operators =>
      obtain rfl : _ = w' := by simpa [World.outside] using h
      exact { hw with }

/-- Another call leaves an engine alone that a call starts. -/
theorem Move.rely (h : Move j w w') (hij : i ≠ j) : Rely i w w' := by
  intro n e he hs hi
  cases h with
  | idle => exact he
  | launch key cfg gameConfig => exact Table.getElem?_concat_of_some he
  | finish m e' status he' hs' hi' hn =>
      have hmn : m ≠ n := by
        rintro rfl
        rw [he] at he'
        obtain rfl := Option.some.inj he'
        exact hij (hi.symm.trans hi')
      simp only [World.updateEngine, List.getElem?_modify, he, if_neg hmn]
      rfl
  | stop =>
      simp only [World.stopEngines, List.getElem?_map, List.getElem?_zipIdx, he, Option.map_some]
      rw [if_neg fun hand => by rw [hs] at hand; cases hand.2]
  | clear => exact he

/-- What happens outside leaves an engine alone that a call starts. -/
theorem rely_outside (hw : Sound w) {x : Outside} (h : w.outside x = some w') : Rely i w w' := by
  have hkeep : ∀ {n : Nat} {f : LiveEngine → LiveEngine},
      (∀ e, w.made[n]? = some e → e.status ≠ .resuming) → Rely i w (w.updateEngine n f) := by
    intro n f hf m e he hs _
    have hnm : n ≠ m := by
      rintro rfl
      exact hf e he hs
    simp only [World.updateEngine, List.getElem?_modify, he, if_neg hnm]
    rfl
  cases x with
  | beginRound n =>
      simp only [World.outside] at h
      split at h
      · rename_i hrun
        obtain rfl : _ = w' := by simpa using h
        refine hkeep fun e he hs => ?_
        simp [he, hs] at hrun
      · cases h
  | settleRound n =>
      simp only [World.outside] at h
      split at h
      · rename_i hopen
        obtain rfl : _ = w' := by simpa using h
        refine hkeep fun e he hs => ?_
        have := hw.open' e (List.mem_of_getElem? he) (by simpa [he] using hopen)
        rw [hs] at this
        rcases this with h | h <;> cases h
      · cases h
  | endLoop n =>
      simp only [World.outside] at h
      split at h
      · rename_i hstop
        obtain rfl : _ = w' := by simpa using h
        refine hkeep fun e he hs => ?_
        simp [he, hs] at hstop
      · cases h
  | configure killSwitch configs operators =>
      obtain rfl : _ = w' := by simpa [World.outside] using h
      exact fun n e he _ _ => he

/-! ## The calls keep to the rules -/

/-- The rules for call `i`. -/
def rules (i : Nat) : Rules World := ⟨Sound, Permit, Rely i, Move i⟩

/-- Call `i` may go on with a program. -/
abbrev Walk {α : Type} (i : Nat) (p : Action α) (w : World) : Prop :=
  Go (rules i) i p (fun _ _ => True) w

/-- Reading the world, and awaiting what does not touch it, keeps to the rules. -/
theorem query_go {α : Type} (f : World → α) : Walk i (Prog.query f) w :=
  Go.query (fun _ => .idle) fun _ _ _ => trivial

theorem check_go : Walk i check w := by
  refine Go.lift fun w₁ _ _ c a w₂ hrun _ => ?_
  obtain rfl : w₁ = w₂ := congrArg Prod.snd (Option.some.inj hrun)
  exact ⟨.idle, fun _ => trivial⟩

/-- A program that keeps to the rules, followed by others that do. -/
theorem Walk.bind {α β : Type} {p : Action α} {f : α → Action β} (h : Walk i p w)
    (hf : ∀ a w, Walk i (f a) w) : Walk i (p >>= f) w :=
  Go.bind_iff.mpr (h.mono fun a w' _ => hf a w')

/-- Storing an engine and starting it. -/
theorem launch_go {key : EngineKey} {cfg : EngineConfig} {gameConfig : GameMathConfig} :
    Walk i (launch key cfg gameConfig) w := by
  have hadd : Go (rules i) i
      (Prog.request fun i w => (w.made.length, w.addEngine key cfg gameConfig i) : Action Nat)
      (fun n w' => ∃ e, w'.made[n]? = some e ∧ e.status = .resuming ∧ e.starter = i) w :=
    Go.request fun w₁ _ _ _ => ⟨.launch key cfg gameConfig, fun _ =>
      ⟨_, Table.getElem?_concat_length _ _, rfl, rfl⟩⟩
  refine Go.bind_iff.mpr (hadd.mono fun n w ⟨e, he, hs, hi⟩ => ?_)
  have hcheck : Go (rules i) i check (fun _ w' => w'.made[n]? = some e) w := by
    refine Go.lift fun w₁ hr _ c a w₂ hrun _ => ?_
    obtain rfl : w₁ = w₂ := congrArg Prod.snd (Option.some.inj hrun)
    exact ⟨.idle, fun _ => hr n e he hs hi⟩
  have hfinish : ∀ {w₁ : World} (status : Status) (o : Option Nat), w₁.made[n]? = some e →
      (status = .running ∨ status = .failed) → Walk i (do
        Prog.modify fun w => w.updateEngine n fun engine => { engine with status }
        pure o) w₁ := fun status o he₁ hn =>
    Go.bind_iff.mpr (Go.modify fun w₂ hr _ _ =>
      ⟨.finish n e status (hr n e he₁ hs hi) hs hi hn, fun _ => trivial⟩)
  refine Go.bind_iff.mpr (hcheck.mono fun resumed w he => ?_)
  split
  · exact hfinish .running (some n) he (.inl rfl)
  · exact hfinish .failed none he (.inr rfl)

/-- The build check. -/
theorem attest_go {key : EngineKey} : Walk i (attest key) w := by
  refine (query_go _).bind fun operatorRow w => ?_
  split
  · exact check_go
  · trivial

/-- **`ensure` keeps to the rules.** -/
theorem ensure_go {key : EngineKey} : Walk i (ensure env key) w := by
  refine (query_go _).bind fun existing w => ?_
  split
  · trivial
  refine (query_go _).bind fun engaged w => ?_
  split
  · trivial
  split
  · trivial
  refine (query_go _).bind fun row w => ?_
  split
  · trivial
  split
  · trivial
  refine attest_go.bind fun attested w => ?_
  split
  · trivial
  refine check_go.bind fun adapter w => ?_
  split
  · trivial
  · exact launch_go

/-- `forSession` keeps to the rules. -/
theorem forSession_go {key : EngineKey} : Walk i (forSession env key) w := by
  refine (query_go _).bind fun existing w => ?_
  split
  · trivial
  · exact ensure_go

/-- `startAllEnabled` keeps to the rules. -/
theorem startAllEnabled_go : Walk i (startAllEnabled env) w := by
  refine (query_go _).bind fun configs w => ?_
  refine Go.each (fun _ _ => True) trivial (fun r rest w _ => ?_) fun _ _ => trivial
  split
  · exact ensure_go.bind fun _ _ => trivial
  · trivial

/-- `stopAll` keeps to the rules. -/
theorem stopAll_go : Walk i stopAll w := by
  have hstop : Walk i
      (Prog.request fun _ w => (w.engines.map Prod.snd, w.stopEngines) : Action (List Nat)) w :=
    Go.request fun _ _ _ _ => ⟨.stop, fun _ => trivial⟩
  refine hstop.bind fun stopping w => ?_
  have hblock : ∀ ready, Walk i (Prog.block ready : Action Unit) w := fun _ =>
    Go.block (fun _ => .idle) fun _ _ _ => trivial
  exact (hblock _).bind fun _ w => Go.modify fun _ _ _ _ => ⟨.clear, fun _ => trivial⟩

/-! ## Runs -/

/-- **The condition on a step of a run.** -/
def Unoccupied (p : State) (_ : Happening) (q : State) : Prop := Permit p.world q.world

instance (p : State) (x : Happening) (q : State) : Decidable (Unoccupied p x q) :=
  inferInstanceAs (Decidable ((∀ e ∈ q.world.made.drop p.world.made.length,
    p.world.get e.key = none) ∧ (q.world.engines = [] → ∀ x ∈ p.world.engines,
      ∀ e ∈ p.world.made[x.2]?, e.live = false)))

/-- **The rules of all calls fit together.** -/
def conduct (env : Env) : Discipline (registry env) Unoccupied where
  inv := Sound
  permit _ _ := Permit
  envPermit _ _ _ := True
  envFits _ _ _ _ := True
  compat _ _ := True
  rely i _ := Rely i
  guar i _ := Move i
  permit_of h _ := h
  envPermit_of _ := trivial
  envFits_of _ _ _ _ := trivial
  compat_of _ _ _ _ _ := ⟨trivial, trivial⟩
  rely_refl _ _ _ := fun _ _ he _ _ => he
  rely_trans _ _ _ _ _ h h' := fun n e he hs hi => h' n e (h n e he hs hi) hs hi
  guar_inv hw hp h := hw.move hp h
  env_inv hw _ h := hw.outside h
  guar_rely hij _ _ _ h := h.rely hij
  env_rely hw _ _ h _ := rely_outside hw h
  code_go {p k q} _ _ _ := by
    cases k with
    | ensure key => exact ensure_go.bind fun _ _ => trivial
    | forSession key => exact forSession_go.bind fun _ _ => trivial
    | startAllEnabled => exact startAllEnabled_go
    | stopAll => exact stopAll_go

namespace Sample

/-- The key of the only game. -/
def key : EngineKey := ⟨0, 0, 0⟩

/-- Its configuration. -/
def configs : List GameConfigRow :=
  [⟨key, true, true, some (.dice 1 1), ⟨1, 100, 0, 0, 0, 0, 1⟩⟩]

/-- The only operator. -/
def operators : List OperatorRow := [⟨0, true, true⟩]

/-- A server with one game. -/
def site : Env where
  getPlugin _ := some ⟨1, fun _ _ => .dice [1] 1 .low, fun _ _ _ => true, fun _ => ⟨false, 0⟩, none⟩
  hashWalletCall _ n _ := n
  hashRound _ n _ := n
  currentBuildHash := none
  checkJurisdictionRules _ := ⟨true, none, none⟩
  effectiveRGFloor _ floor := floor

/-- A call of `ensure` that makes an engine and starts it, up to the end of its resuming. -/
def ensured (i : Nat) : List Happening := List.replicate 6 (.run i .ok)

/-- Two calls, one after the other. -/
def inTurn : List Happening :=
  .call (.ensure key) :: ensured 0 ++ [.run 0 .ok, .run 0 .ok, .call (.ensure key), .run 1 .ok]

/-- Two calls that both look the key up before either stores its engine. The first engine has a
round open while the second one resumes. -/
def together : List Happening :=
  .call (.ensure key) :: .call (.ensure key) :: .run 1 .ok :: ensured 0 ++
    [.run 0 .ok, .run 0 .ok, .env (.beginRound 0)] ++ (ensured 1).tail

end Sample

/-- Every step is fine. -/
def Anything (_ : State) (_ : Happening) (_ : State) : Prop := True

instance (p : State) (x : Happening) (q : State) : Decidable (Anything p x q) := .isTrue trivial

end YantraRgs.EngineRegistry
