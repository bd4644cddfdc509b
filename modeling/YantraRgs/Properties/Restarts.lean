import YantraRgs.Properties.Runs

/-! # The end of a start

A start of an engine comes to its end with the step that sets the engine running. At that step every
unsettled round of its key was resumed, and so what resuming does to a bet can be told from the world
in which the start was called.

* **`Restarted`** — such a step.
* **`History.resumed`** — the call that it ends, and what that call did. -/

namespace YantraRgs

open Await

variable {env : Env} {P : Policy} {p q : State} {x : Happening} {w w' w₀ : World}
variable {A : State → Happening → State → Prop}

/-- The policy of runs in which engines of one key do not run together, with an eye on the start `i`,
which was called in `w₀`. -/
def Policy.resuming (env : Env) (i : Nat) (w₀ : World) : Policy :=
  { Policy.free env with oneEngine := True, focus := some (i, w₀) }

/-- The rules are met, also with an eye on the one call that was made from the state `v`. -/
theorem resuming_meets (hA : ∀ p x q, A p x q → OneEngine p x) (v : State) :
    Meets (.resuming env v.tasks.length v.world)
      fun p x q => A p x q ∧ ∀ k, x = .call k → p.tasks.length = v.tasks.length → p = v where
  permit _ _ := .of_free (fun h => h) (fun h => h) (fun h => h) fun h => h
  engines _ {_ _ _} h := hA _ _ _ h.1 _ rfl
  countedUp _ h := h.elim
  fit _ := ⟨fun _ h => h.elim, fun _ h => h.elim⟩
  closed _ h := h.elim
  crashes h := h.elim
  configs h := h.elim
  verifies h := h.elim
  focus {p k q} h u hu := by
    obtain ⟨hlen, rfl⟩ : v.tasks.length = p.tasks.length ∧ v.world = u := by
      simpa [Policy.resuming] using hu
    rw [h.2 k rfl hlen.symm]

/-- A step sets an engine of the key running. -/
def Restarted (key : EngineKey) (w w' : World) : Prop :=
  ∃ (n : Nat) (engine engine' : Engine), w.engines[n]? = some engine ∧ engine.running = false ∧
    w'.engines[n]? = some engine' ∧ engine'.running = true ∧ engine'.key = key

/-- Nothing is set running where what is tracked of the engines stays. -/
theorem not_restarted_of_tracked {key : EngineKey}
    (h : w'.engines.map Engine.tracked = w.engines.map Engine.tracked) : ¬ Restarted key w w' := by
  rintro ⟨n, engine, engine', he, hrun, he', hrun', -⟩
  have htracked := congrArg (fun l => l[n]?) h
  simp only [List.getElem?_map, he, he', Option.map_some, Option.some.injEq] at htracked
  have hsame : engine'.running = engine.running := congrArg (fun t => t.2.2) htracked
  rw [hrun, hrun'] at hsame
  cases hsame

/-- Nothing is set running by a change of one engine that keeps a stopped engine stopped. -/
theorem not_restarted_of_update {key : EngineKey} {e : EngineRef} {f : Engine → Engine}
    (hf : ∀ engine, engine.running = false → (f engine).running = false) :
    ¬ Restarted key w (w.updateEngine e f) := by
  rintro ⟨n, engine, engine', he, hrun, he', hrun', -⟩
  simp only [World.updateEngine, List.getElem?_modify, he, Option.map_eq_map, Option.map_some,
    Option.some.injEq] at he'
  split at he' <;> subst he'
  · rw [hf _ hrun] at hrun'
    cases hrun'
  · rw [hrun] at hrun'
    cases hrun'

/-- An engine is set running by the last action of its start alone. -/
theorem Move.restarted {i : Nat} {k : Call} {key : EngineKey} (h : Move P i k w w')
    (hr : Restarted key w w') : ∃ e, k = .start e ∧ ResumedAll P i k w ∧
      w' = w.updateEngine e (fun engine => { engine with running := true }) ∧
      ∃ engine, w.engine? e = some engine ∧ engine.key = key := by
  cases h with
  | idle h => exact absurd hr (not_restarted_of_tracked h.engines)
  | phase e polls he hk f hf => exact absurd hr (not_restarted_of_update fun _ hrun => hrun)
  | activate e polls he active hk hround =>
      exact absurd hr (not_restarted_of_update fun _ hrun => hrun)
  | begin e he hk h =>
      refine ⟨e, he, h, rfl, ?_⟩
      obtain ⟨n, engine, engine', hn, hrun, hn', hrun', rfl⟩ := hr
      simp only [World.updateEngine, List.getElem?_modify, hn, Option.map_eq_map, Option.map_some,
        Option.some.injEq] at hn'
      split at hn' <;> subst hn'
      · rename_i hidx
        exact ⟨engine, by rw [World.engine?, hidx, hn], rfl⟩
      · rw [hrun] at hrun'
        cases hrun'
  | _ => exact absurd hr (not_restarted_of_tracked rfl)

/-- Nothing is set running from outside. -/
theorem outside_not_restarted {key : EngineKey} {y : Outside} (h : w.outside y = some w') :
    ¬ Restarted key w w' := by
  cases y with
  | deliver sent v message =>
      simp only [World.outside, World.deliver] at h
      split at h
      · obtain ⟨s, -, h⟩ := Option.bind_eq_some_iff.mp h
        obtain ⟨book, -, rfl⟩ := Option.map_eq_some_iff.mp h
        exact not_restarted_of_tracked rfl
      · cases h
  | boot key cfg gameConfig =>
      obtain rfl : _ = w' := by simpa [World.outside] using h
      rintro ⟨n, engine, engine', he, hrun, he', hrun', -⟩
      rw [Table.getElem?_concat_of_some he] at he'
      obtain rfl := Option.some.inj he'
      rw [hrun] at hrun'
      cases hrun'
  | stop e =>
      obtain rfl : _ = w' := by simpa [World.outside] using h
      exact not_restarted_of_update fun _ _ => rfl
  | die e =>
      obtain rfl : _ = w' := by simpa [World.outside] using h
      exact not_restarted_of_update fun _ _ => rfl
  | configure e cfg gameConfig =>
      obtain rfl : _ = w' := by simpa [World.outside] using h
      exact not_restarted_of_update fun _ hrun => hrun
  | elapse | drop | patch =>
      obtain rfl : _ = w' := by simpa [World.outside] using h
      exact not_restarted_of_tracked rfl

/-- A step that sets an engine running ends a call that started it. -/
theorem Stepped.restarted {key : EngineKey} (h : Stepped P p x q)
    (hr : Restarted key p.world q.world) : ∃ i c t e, x = .run i c ∧ p.tasks[i]? = some t ∧
      t.call = .start e ∧ ResumedAll P i t.call p.world ∧
      q.world = p.world.updateEngine e (fun engine => { engine with running := true }) ∧
      ∃ engine, p.world.engine? e = some engine ∧ engine.key = key := by
  cases h with
  | move i c t hx ht hl hp h =>
      obtain ⟨e, hcall, hrest⟩ := h.restarted hr
      exact ⟨i, c, t, e, hx, ht, hcall, hrest⟩
  | outer y hx h => exact absurd hr (outside_not_restarted h)
  | stay h => exact absurd hr (h ▸ not_restarted_of_tracked rfl)

/-- **What a start has done when it sets its engine running**: the call `v.tasks.length`, that was
made in the state `v`, has resumed every round of its key that was unsettled then. -/
theorem History.resumed (hA : ∀ p x q, A p x q → OneEngine p x) {v v' : State} {k : Call}
    {c : Choice} (h : History env A v) (hcall : (server env).step v (.call k) = some v')
    (hAv : A v (.call k) v') (hrun : (server env).Run A v' p)
    (hs : (server env).step p (.run v.tasks.length c) = some q)
    (hx : A p (.run v.tasks.length c) q) {key : EngineKey} (hr : Restarted key p.world q.world) :
    ∃ e, k = .start e ∧ e.key = key ∧ Sound (.resuming env v.tasks.length v.world) v.world ∧
      Later v.world p.world ∧ Resumed env key v.world p.world ∧
        q.world = p.world.updateEngine e fun engine => { engine with running := true } := by
  obtain ⟨operators, credentials, gameConfigs, hbefore⟩ := h
  have hadmitted : k.admitted v = true := (System.call_cases hcall).1
  have hlen : v'.tasks.length = v.tasks.length + 1 := System.step_length hcall
  have hmeets : Meets (.resuming env _ v.world) _ := resuming_meets hA v
  -- no other call has the number of the one that is looked at
  obtain ⟨hready, -⟩ := run_invariant (J := fun _ => True)
    (Ready.initial hmeets operators credentials gameConfigs)
    (hbefore.calls_lt.mono fun _ _ _ h => ⟨h.1, fun k hk hl => absurd hl (Nat.ne_of_lt (h.2 k hk))⟩)
    trivial fun _ _ _ _ _ _ _ _ _ => trivial
  obtain ⟨hready', hstep'⟩ := hready.step hcall ⟨hAv, fun _ _ _ => rfl⟩
  obtain ⟨hready'', hl⟩ := run_invariant (J := fun p => Later v.world p.world) hready'
    (hrun.calls_ge.mono fun _ _ _ h => ⟨h.1, fun k hk hl => by have := h.2 k hk; omega⟩)
    hstep'.later fun _ _ _ _ _ _ _ hx hl => hl.trans hx.later
  -- the call that ends here is a start, and it has resumed what it found
  obtain ⟨-, hstep⟩ := hready''.step hs ⟨hx, fun _ hcall => nomatch hcall⟩
  obtain ⟨i', _, t, e, hrun', ht, hcall', hresumed, hq, engine, hengine, rfl⟩ := hstep.restarted hr
  obtain rfl : v.tasks.length = i' := by
    injection hrun'
  obtain rfl : k = .start e := by
    have hk := hrun.made hcall
    rw [Pool.calls, List.getElem?_map, ht, Option.map_some, hcall'] at hk
    exact (Option.some.inj hk).symm
  have hkey : engine.key = e.key := by
    have hup := hl.keyed (World.keyed_of_up (Bool.and_eq_true_iff.mp hadmitted).1)
    obtain ⟨engine', hengine', hkey⟩ := hup
    rw [hengine] at hengine'
    exact Option.some.inj hengine' ▸ hkey
  have hdone : Resumed env e.key v.world p.world := hresumed v.world e rfl hcall' trivial
  exact ⟨e, rfl, hkey.symm, hready.ok.inv, hl, hkey ▸ hdone, hq⟩

/-- Every step that sets an engine running is one of a call that was made before. -/
theorem History.began (h : History env A p) (hs : (server env).step p x = some q) {key : EngineKey}
    (hr : Restarted key p.world q.world) : ∃ (v v' : State) (k : Call) (c : Choice),
      x = .run v.tasks.length c ∧ History env A v ∧ (server env).step v (.call k) = some v' ∧
        A v (.call k) v' ∧ (server env).Run A v' p := by
  obtain ⟨i, c, rfl⟩ : ∃ i c, x = .run i c := by
    rcases System.step_world hs with hrun | ⟨y, -, hy⟩ | hw
    · exact hrun
    · exact absurd hr (outside_not_restarted hy)
    · exact absurd hr (hw ▸ not_restarted_of_tracked rfl)
  obtain ⟨_, _, _, _, _, _, hi, -, -⟩ := System.runTask_cases hs
  obtain ⟨operators, credentials, gameConfigs, hrun⟩ := h
  obtain ⟨v, k, v', rfl, hcall, hAv, hbefore, hafter⟩ :=
    hrun.began (i := i) (Nat.zero_le _) (List.getElem?_eq_some_iff.mp hi).1
  exact ⟨v, v', k, c, rfl, ⟨_, _, _, hbefore⟩, hcall, hAv, hafter⟩

end YantraRgs
