import YantraRgs.Await.Watch
import YantraRgs.Services.GlobalKillSwitch

/-! # The kill switch takes hold

A snapshot reads the row, waits, and keeps what it read. Where it read the row before an engagement
wrote it and keeps that after the engagement has come to its end, the switch counts as not engaged for
five seconds more. A disengagement that was called for earlier may also write the row late.

* **`TakesHold`** — questions asked once the switch was engaged are answered so.
* **`Fresh`** — the condition on one step.
* **`takesHold_of_fresh`** — runs whose steps meet it answer every such question right. -/

namespace YantraRgs.GlobalKillSwitch

open Await

variable {w w' : World} {i : Nat} {k : Call} {prepare : World → World}

/-- **The switch takes hold**: a question that was asked after an engagement had come to its end, and
before a later disengagement was called for, is answered with yes. -/
def TakesHold (w : World) : Prop := ∀ answer ∈ w.answers, answer.1 = true → answer.2 = true

/-- **The condition on one step.** -/
structure Fresh (p : State) (_ : Happening) (q : State) : Prop where
  /-- What is kept of the switch while it is engaged for good says so. -/
  stored : q.world.engagedFor = true →
    p.world.engagedFor = false ∨ q.world.cached ≠ p.world.cached →
      ∀ cached ∈ q.world.cached, cached.value.engaged = true
  /-- An engagement comes to its end while the row is engaged. -/
  resolved : q.world.engagedFor = true → p.world.engagedFor = false → q.world.engaged = true
  /-- The row is disengaged while the switch is not engaged for good, and no question that was asked
  while it was has yet to read the row. -/
  written : p.world.engaged = true → q.world.engaged = false →
    p.world.engagedFor = false ∧
      ∀ i ∈ p.world.waiting, p.tasks[i]?.all (fun t => t.prog.ended) = true

instance (p : State) (e : Happening) (q : State) : Decidable (Fresh p e q) :=
  decidable_of_iff
    ((q.world.engagedFor = true →
      p.world.engagedFor = false ∨ q.world.cached ≠ p.world.cached →
        ∀ cached ∈ q.world.cached, cached.value.engaged = true) ∧
      (q.world.engagedFor = true → p.world.engagedFor = false → q.world.engaged = true) ∧
      (p.world.engaged = true → q.world.engaged = false →
        p.world.engagedFor = false ∧
          ∀ i ∈ p.world.waiting, p.tasks[i]?.all (fun t => t.prog.ended) = true))
    ⟨fun ⟨h₁, h₂, h₃⟩ => ⟨h₁, h₂, h₃⟩, fun h => ⟨h.stored, h.resolved, h.written⟩⟩

/-! ## While the switch is engaged for good -/

/-- While the switch is engaged for good, the row says so, and so does what is kept of it. -/
def Holds (w : World) : Prop :=
  w.engagedFor = true → w.engaged = true ∧ ∀ cached ∈ w.cached, cached.value.engaged = true

theorem Holds.step {p q : State} {e : Happening} (h : Holds p.world) (hfresh : Fresh p e q) :
    Holds q.world := by
  intro hq
  by_cases hp : p.world.engagedFor = true
  · obtain ⟨hrow, hcached⟩ := h hp
    refine ⟨?_, ?_⟩
    · by_contra hnot
      have hoff := (hfresh.written hrow (Bool.not_eq_true _ ▸ hnot)).1
      rw [hp] at hoff
      cases hoff
    · by_cases hsame : q.world.cached = p.world.cached
      · rw [hsame]
        exact hcached
      · exact hfresh.stored hq (.inr hsame)
  · have hoff : p.world.engagedFor = false := Bool.not_eq_true _ ▸ hp
    exact ⟨hfresh.resolved hq hoff, hfresh.stored hq (.inl hoff)⟩

/-- What the cache has to say then is that the switch is engaged. -/
theorem Holds.hit (h : Holds w) (hw : w.engagedFor = true) {value : SnapshotState}
    (hhit : w.hit = some value) : value.engaged = true := by
  obtain ⟨cached, hcached, rfl⟩ := Option.map_eq_some_iff.mp hhit
  exact (h hw).2 cached (Option.filter_eq_some_iff.mp hcached).1

/-! ## One call -/

/-- A question that waits goes on waiting, and an engaged row stays engaged for it. -/
def Rely (i : Nat) (w w' : World) : Prop :=
  i ∈ w.waiting → i ∈ w'.waiting ∧ (w.engaged = true → w'.engaged = true)

/-- A call leaves other questions waiting, and gives no wrong answer. -/
def Guar (i : Nat) (w w' : World) : Prop :=
  (∀ j, j ≠ i → j ∈ w.waiting → j ∈ w'.waiting) ∧ (TakesHold w → TakesHold w')

/-- The rules of call `i`. -/
def rules (i : Nat) (_ : Call) : Rules World := ⟨Holds, fun _ _ => True, Rely i, Guar i⟩

/-- Questions and answers stay as they are. -/
def Quiet (w w' : World) : Prop := w'.waiting = w.waiting ∧ w'.answers = w.answers

theorem Quiet.guar (h : Quiet w w') : Guar i w w' := by
  refine ⟨fun j _ hj => h.1 ▸ hj, fun ht answer ha => ?_⟩
  rw [h.2] at ha
  exact ht answer ha

/-- **A snapshot**: a question that was asked while the switch was engaged for good learns that it
is. -/
theorem snapshot_go (hprepare : ∀ w, Quiet w (prepare w)) (question : Bool) :
    Go (rules i k) i (snapshot prepare question)
      (fun x _ => question = true → prepare = id → x.1 = true → x.2.engaged = true) w := by
  unfold snapshot
  refine Go.bind_iff.mpr (Go.request fun w₁ _ hholds _ => ⟨?_, fun _ => ?_⟩)
  · -- the look into the cache
    obtain ⟨hwaiting, hanswers⟩ := hprepare w₁
    refine ⟨fun j _ hj => ?_, fun ht answer ha => ?_⟩
    · dsimp only
      split
      · exact List.mem_cons_of_mem i (hwaiting ▸ hj)
      · exact hwaiting ▸ hj
    · refine ht answer (hanswers ▸ ?_)
      dsimp only at ha
      split at ha <;> exact ha
  · dsimp only
    cases hhit : (prepare w₁).hit with
    | some value =>
        rintro - rfl hasked
        exact hholds.hit hasked hhit
    | none =>
        -- the reading of the row, and then its storing
        refine Go.bind_iff.mpr (Go.request fun w₂ hrely _ _ => ⟨⟨fun j hj hmem => ?_, id⟩, fun _ => ?_⟩)
        · exact List.mem_filter.mpr ⟨hmem, by simpa using hj⟩
        · refine Go.bind_iff.mpr (Go.modify fun w₃ _ _ _ => ⟨Quiet.guar ⟨rfl, rfl⟩, fun _ => ?_⟩)
          rintro rfl rfl hasked
          have hengaged : w₁.engagedFor = true := hasked
          rw [if_pos ⟨rfl, hengaged, rfl⟩] at hrely
          exact (hrely List.mem_cons_self).2 (hholds hengaged).1

theorem quiet_id (w : World) : Quiet w (id w) := ⟨rfl, rfl⟩

theorem quiet_forget (w : World) : Quiet w w.forget := ⟨rfl, rfl⟩

/-- Every call may go on under its rules. -/
theorem code_go (k : Call) : Go (rules i k) i k.code (fun _ _ => True) w := by
  cases k with
  | isEngaged =>
      refine Go.bind_iff.mpr ((snapshot_go quiet_id true).mono fun x w' hx => ?_)
      refine Go.modify fun w₁ _ _ _ => ⟨⟨fun _ _ hj => hj, fun ht answer ha => ?_⟩, fun _ => trivial⟩
      rcases List.mem_append.mp ha with ha | ha
      · exact ht answer ha
      · rw [List.mem_singleton.mp ha]
        exact hx rfl rfl
  | snapshot => exact Go.bind_iff.mpr ((snapshot_go quiet_id false).mono fun _ _ _ => trivial)
  | engage reason actorEmail =>
      refine Go.bind_iff.mpr (Go.query (fun w => Quiet.guar ⟨rfl, rfl⟩) fun w₁ _ _ => ?_)
      refine Go.bind_iff.mpr (Go.modify fun w₂ _ _ _ => ⟨Quiet.guar ⟨rfl, rfl⟩, fun _ => ?_⟩)
      refine Go.bind_iff.mpr ((snapshot_go quiet_forget false).mono fun _ w₃ _ => ?_)
      exact Go.modify fun w₄ _ _ _ => ⟨Quiet.guar ⟨rfl, rfl⟩, fun _ => trivial⟩
  | disengage actorEmail =>
      refine Go.bind_iff.mpr (Go.request fun w₁ _ _ _ => ⟨Quiet.guar ⟨rfl, rfl⟩, fun _ => ?_⟩)
      refine Go.bind_iff.mpr (Go.modify fun w₂ _ _ _ => ⟨Quiet.guar ?_, fun _ => ?_⟩)
      · cases w₂.row <;> exact ⟨rfl, rfl⟩
      · exact Go.bind_iff.mpr ((snapshot_go quiet_forget false).mono fun _ _ _ => trivial)

/-! ## Runs -/

/-- Every call may go on, and what holds while the switch is engaged for good does hold. -/
structure InOrder (p : State) : Prop where
  holds : Holds p.world
  watched : Watched rules (fun _ => True) p
  takesHold : TakesHold p.world

/-- **A step that meets the condition** keeps a pool in order. -/
theorem InOrder.step {p q : State} {e : Happening} (h : InOrder p)
    (hs : killSwitchServer.step p e = some q) (hfresh : Fresh p e q) : InOrder q := by
  have hholds := h.holds.step hfresh
  have hguar : ∀ j c, e = .run j c → Guar j p.world q.world := by
    rintro j c rfl
    obtain ⟨k, β, run, next, b, w, hj, -, -⟩ := System.runTask_cases hs
    exact h.watched.guar hs hj trivial (fun hmem => ⟨hmem, id⟩) h.holds trivial
  have hquiet : (∀ j c, e ≠ .run j c) → Quiet p.world q.world := by
    intro hnot
    rcases System.step_world hs with ⟨j, c, he⟩ | ⟨ms, -, hms⟩ | hw
    · exact absurd he (hnot j c)
    · rw [← Option.some.inj hms]
      exact ⟨rfl, rfl⟩
    · rw [hw]
      exact ⟨rfl, rfl⟩
  refine ⟨hholds, h.watched.step hs (fun i k w _ hmem => ⟨hmem, id⟩) ?_ (fun _ _ _ => ⟨h.holds, hholds⟩)
    ?_ (fun _ _ _ _ _ _ => trivial) fun k _ _ => code_go k, ?_⟩
  · intro i k a b c _ hab hbc hmem
    obtain ⟨hb, hrow⟩ := hab hmem
    exact ⟨(hbc hb).1, fun ha => (hbc hb).2 (hrow ha)⟩
  · -- what another call does while a question waits
    intro i t ht hlive _ hother hmem
    refine ⟨?_, fun hengaged => ?_⟩
    · by_cases hrun : ∃ j c, e = .run j c
      · obtain ⟨j, c, rfl⟩ := hrun
        exact (hguar j c rfl).1 i (fun hij => hother c (hij ▸ rfl)) hmem
      · push Not at hrun
        exact (hquiet hrun).1 ▸ hmem
    · by_contra hnot
      have hended := (hfresh.written hengaged (Bool.not_eq_true _ ▸ hnot)).2 i hmem
      rw [ht] at hended
      exact absurd hended (by simpa [Task.live] using hlive)
  · by_cases hrun : ∃ j c, e = .run j c
    · obtain ⟨j, c, he⟩ := hrun
      exact (hguar j c he).2 h.takesHold
    · push Not at hrun
      intro answer ha
      rw [(hquiet hrun).2] at ha
      exact h.takesHold answer ha

namespace Sample

/-- Call `i` runs its next `n` actions. -/
def runs (i n : Nat) : List Happening := List.replicate n (.run i ())

/-- The switch is engaged, and then a question is asked. -/
def engaging : List Happening :=
  [.call (.engage "incident".toList "ops@example.test".toList)] ++ runs 0 6 ++ [.call .isEngaged] ++
    runs 1 2

/-- A question reads the row, the switch is engaged, and then what the question read is kept. -/
def overtaking : List Happening :=
  [.call .isEngaged] ++ runs 0 2 ++
    [.call (.engage "incident".toList "ops@example.test".toList)] ++ runs 1 6 ++ runs 0 1 ++
      [.call .isEngaged] ++ runs 2 2

end Sample

end YantraRgs.GlobalKillSwitch
