import YantraRgs.Conduct.Laws

/-! # Which engines run, and which rounds are open

An engine runs from the end of its start until it is stopped or its process ends. A round is open
until it is settled.

* **`World.Runs`**, **`World.OneOpen`** — an engine runs; a key has at most one open round.
* **`Move.runs`**, **`outside_runs`** — an engine is set running by the end of its start alone.
* **`Move.allSettled`**, **`Move.oneOpen`** — rounds are opened by a turn of the loop alone, and then
  no other round of the key is open. -/

namespace YantraRgs

open Await

variable {P : Policy} {i : Nat} {k : Call} {w w' : World} {e : EngineRef} {key : EngineKey}

namespace World

/-- The reference is to an engine of its key that is running. -/
def Runs (w : World) (e : EngineRef) : Prop :=
  ∃ engine, w.engine? e = some engine ∧ engine.key = e.key ∧ engine.running = true

/-- **At most one round of a key is open.** -/
def OneOpen (w : World) (key : EngineKey) : Prop :=
  ∀ (m n : Nat) (r r' : Round), w.rounds[m]? = some r → w.rounds[n]? = some r' → r.key = key →
    r'.key = key → r.settled = false → r'.settled = false → m = n

theorem AllSettled.oneOpen (h : w.AllSettled key) : w.OneOpen key := by
  intro m n r r' hr _ hk _ hs _
  rw [h r (List.mem_of_getElem? hr) hk] at hs
  cases hs

/-- Where the rounds stay, so do those that are settled. -/
theorem AllSettled.congr (h : w.AllSettled key) (hr : w'.rounds = w.rounds) : w'.AllSettled key :=
  fun r hmem => h r (hr ▸ hmem)

theorem OneOpen.congr (h : w.OneOpen key) (hr : w'.rounds = w.rounds) : w'.OneOpen key :=
  fun m n r r' hm hn => h m n r r' (hr ▸ hm) (hr ▸ hn)

/-- Which engines run depends on what is tracked of them. -/
theorem Runs.of_tracked (h : w'.Runs e)
    (hs : (w'.engine? e).map Engine.tracked = (w.engine? e).map Engine.tracked) : w.Runs e := by
  obtain ⟨engine', he', hk, hrun⟩ := h
  rw [he', Option.map_some] at hs
  obtain ⟨engine, he, htracked⟩ := Option.map_eq_some_iff.mp hs.symm
  have hkey : engine.key = engine'.key := congrArg Prod.fst htracked
  have hrunning : engine.running = engine'.running := congrArg (fun t => t.2.2) htracked
  exact ⟨engine, he, hkey.trans hk, hrunning.trans hrun⟩

/-- An engine that runs after a change of one engine ran before, when the change keeps its key and
sets nothing running. -/
theorem Runs.of_update {e' : EngineRef} {f : Engine → Engine} (h : (w.updateEngine e' f).Runs e)
    (hf : ∀ engine, (f engine).key = engine.key ∧
      ((f engine).running = true → engine.running = true)) : w.Runs e := by
  obtain ⟨engine', he', hk, hrun⟩ := h
  rw [engine?_updateEngine] at he'
  obtain ⟨engine, he, rfl⟩ := Option.map_eq_some_iff.mp he'
  by_cases hidx : e'.index = e.index
  · rw [if_pos hidx] at hk hrun
    exact ⟨engine, he, (hf engine).1.symm.trans hk, (hf engine).2 hrun⟩
  · rw [if_neg hidx] at hk hrun
    exact ⟨engine, he, hk, hrun⟩

end World

/-- **An engine is set running by the end of its start**, when every round of its key is settled. -/
theorem Move.runs (h : Move P i k w w') (hr : w'.Runs e) :
    w.Runs e ∨ (k = .start e ∧ (P.oneEngine → w'.AllSettled e.key)) := by
  cases h with
  | idle h => exact .inl (hr.of_tracked (tracked_engine h.engines e))
  | phase e' polls he hk f hf => exact .inl (hr.of_update fun engine => ⟨rfl, fun hrun => hrun⟩)
  | activate e' polls he active hk hround =>
      exact .inl (hr.of_update fun engine => ⟨rfl, fun hrun => hrun⟩)
  | begin e' he hk h ha =>
      by_cases hidx : e'.index = e.index
      · -- the engine that was started is the one that runs
        obtain ⟨engine', he', hkey, -⟩ := hr
        obtain ⟨engine, hengine, hkey'⟩ := hk
        rw [engine?_updateEngine] at he'
        obtain ⟨engine₀, h₀, rfl⟩ := Option.map_eq_some_iff.mp he'
        rw [if_pos hidx] at hkey
        have hsame : engine₀ = engine := by
          simp only [World.engine?] at h₀ hengine
          rw [hidx, h₀] at hengine
          exact Option.some.inj hengine
        obtain rfl : e' = e := by
          have hkeys : e'.key = e.key := by rw [← hkey', ← hkey, hsame]
          cases e
          cases e'
          simp_all
        exact .inr ⟨he, fun hP => (ha hP).congr rfl⟩
      · obtain ⟨engine', he', hkey, hrun⟩ := hr
        rw [engine?_updateEngine] at he'
        obtain ⟨engine₀, h₀, rfl⟩ := Option.map_eq_some_iff.mp he'
        rw [if_neg hidx] at hkey hrun
        exact .inl ⟨engine₀, h₀, hkey, hrun⟩
  | _ => exact .inl hr

/-- **Nothing is set running from outside**, and an engine whose process ends does not run. -/
theorem outside_runs {x : Outside} (h : w.outside x = some w') (hr : w'.Runs e) :
    w.Runs e ∧ x ≠ .die e := by
  cases x with
  | deliver sent v message =>
      simp only [World.outside, World.deliver] at h
      split at h
      · obtain ⟨s, -, h⟩ := Option.bind_eq_some_iff.mp h
        obtain ⟨book, -, rfl⟩ := Option.map_eq_some_iff.mp h
        exact ⟨hr, by simp⟩
      · cases h
  | boot key cfg gameConfig =>
      obtain rfl : _ = w' := by simpa [World.outside] using h
      obtain ⟨engine, he, hk, hrun⟩ := hr
      rcases Table.getElem?_concat_cases he with he | ⟨-, rfl⟩
      · exact ⟨⟨engine, he, hk, hrun⟩, by simp⟩
      · cases hrun
  | stop e' =>
      obtain rfl : _ = w' := by simpa [World.outside] using h
      exact ⟨hr.of_update fun engine => ⟨rfl, fun hrun => by cases hrun⟩, by simp⟩
  | die e' =>
      obtain rfl : _ = w' := by simpa [World.outside] using h
      refine ⟨hr.of_update fun engine => ⟨rfl, fun hrun => by cases hrun⟩, fun he => ?_⟩
      injection he with he
      subst he
      obtain ⟨engine', he', -, hrun⟩ := hr
      rw [engine?_updateEngine] at he'
      obtain ⟨engine, -, rfl⟩ := Option.map_eq_some_iff.mp he'
      rw [if_pos rfl] at hrun
      cases hrun
  | configure e' cfg gameConfig =>
      obtain rfl : _ = w' := by simpa [World.outside] using h
      exact ⟨hr.of_update fun engine => ⟨rfl, fun hrun => hrun⟩, by simp⟩
  | elapse | drop | patch =>
      obtain rfl : _ = w' := by simpa [World.outside] using h
      exact ⟨hr, by simp⟩

/-- **Settled rounds stay settled, and new ones are opened by a turn of the loop.** -/
theorem Move.allSettled (h : Move P i k w w') (ha : w.AllSettled key)
    (hk : ∀ e polls, k = .iteration e polls → e.key ≠ key) : w'.AllSettled key := by
  intro r' hr' hkey
  obtain ⟨n, hn⟩ := List.mem_iff_getElem?.mp hr'
  rcases h.round_old_or_new hn with ⟨r, hr, hl⟩ | ⟨-, hnew⟩
  · exact hl.settled (ha r (List.mem_of_getElem? hr) (hl.key.symm.trans hkey))
  · obtain ⟨e, polls, rfl, hk'⟩ := hnew.loop
    exact absurd (hk'.symm.trans hkey) (hk e polls rfl)

/-- **A round is opened only when no other one of its key is open**, as far as the policy knows. -/
theorem Move.oneOpen (h : Move P i k w w') (hP : P.oneEngine) (hC : P.closed)
    (ho : w.OneOpen key) : w'.OneOpen key := by
  -- an old round beside a new one of its key is settled
  have hbeside : ∀ {n : Nat} {r r₀ r' : Round}, NewRound P k w r → w.rounds[n]? = some r₀ →
      r₀.Later r' → r.key = key → r'.key = key → r'.settled = true :=
    fun hnew hr₀ hl hk hk' => hl.settled
      (hnew.alone hP hC _ (List.mem_of_getElem? hr₀) ((hl.key.symm.trans hk').trans hk.symm))
  intro m n r r' hm hn hk hk' hs hs'
  rcases h.round_old_or_new hm with ⟨r₀, hr₀, hl⟩ | ⟨rfl, hnew⟩ <;>
    rcases h.round_old_or_new hn with ⟨r₀', hr₀', hl'⟩ | ⟨rfl, hnew'⟩
  · have hopen : ∀ {x x' : Round}, x.Later x' → x'.settled = false → x.settled = false := by
      intro x x' hx hx'
      by_contra hset
      rw [hx.settled (by simpa using hset)] at hx'
      cases hx'
    exact ho m n r₀ r₀' hr₀ hr₀' (hl.key.symm.trans hk) (hl'.key.symm.trans hk') (hopen hl hs)
      (hopen hl' hs')
  · rw [hbeside hnew' hr₀ hl hk' hk] at hs
    cases hs
  · rw [hbeside hnew hr₀' hl' hk hk'] at hs'
    cases hs'
  · rfl

end YantraRgs
