import YantraRgs.Properties.PortalSessions

/-! # The counters of devices

A device counts its signatures, so that a copy of it is found out. A signature is verified against the
counter that was read, and the transaction that follows sets the new one without a look at what it is by
then. So the counters of a device rise as long as no two of its signatures are verified at once.

* **`Rising`** — each signature of a device has a greater counter than the ones before.
* **`InOrder`** — the condition on one step.
* **`counters_rise`** — runs whose steps meet it. -/

namespace YantraRgs.Portal

open Await Table

variable {env : Env} {w w' : World} {i : Nat}

/-- A counter after another: it is greater, or the device does not count. -/
def Ahead (a b : Nat) : Prop := a < b ∨ (a = 0 ∧ b = 0)

instance (a b : Nat) : Decidable (Ahead a b) := inferInstanceAs (Decidable (_ ∨ _))

theorem Ahead.trans {a b c : Nat} (h : Ahead a b) (h' : Ahead b c) : Ahead a c := by
  unfold Ahead at h h' ⊢
  omega

/-- **The counters of every device rise.** -/
def Rising (w : World) : Prop := ∀ n, (w.counters n).Pairwise Ahead

/-- A signature was verified against the counter that its device has now. -/
def Use.Current (w : World) : Use → Prop
  | .login _ _ credential _ counter _ _ => ∀ c ∈ w.credentials[credential]?, c.counter = counter
  | .enrolment _ _ _ _ => True

instance (w : World) : (use : Use) → Decidable (use.Current w)
  | .login _ _ credential _ counter _ _ =>
      inferInstanceAs (Decidable (∀ c ∈ w.credentials[credential]?, c.counter = counter))
  | .enrolment _ _ _ _ => .isTrue trivial

/-- **The condition on one step**: a signature that is taken in was verified against the counter that
its device has now. -/
def InOrder (p : State) (_ : Happening) (q : State) : Prop :=
  ∀ use ∈ q.world.uses.drop p.world.uses.length, use.Current p.world

instance (p : State) (e : Happening) (q : State) : Decidable (InOrder p e q) :=
  inferInstanceAs (Decidable (∀ use ∈ q.world.uses.drop p.world.uses.length, use.Current p.world))

/-- **What a step adds to the answers**: at most one, and where that is a signature that was verified
against the counter of now, the new counter is ahead of it. -/
theorem Move.uses (h : Move env i w w') : w'.uses = w.uses ∨ ∃ use, w'.uses = w.uses ++ [use] ∧
    ∀ n newCounter, use.counterOf n = some newCounter → ∃ c, w.credentials[n]? = some c ∧
      (use.Current w → Ahead c.counter newCounter) := by
  cases h with
  | enrolled hc hkind huser hsession hcall hlive hok hid hkey henrol =>
      obtain ⟨-, rfl⟩ := enrol_eq_ok henrol
      exact .inr ⟨_, rfl, fun n newCounter h => nomatch h⟩
  | @signed _ m credential counter newCounter response time c cred hc hkind htime hcred hid hok hlogin =>
      obtain ⟨-, rfl⟩ := login_eq_ok hlogin
      refine .inr ⟨_, rfl, fun n new hnew => ?_⟩
      rw [Use.counterOf] at hnew
      split at hnew
      · rename_i heq
        subst heq
        obtain rfl := Option.some.inj hnew
        refine ⟨cred, hcred, fun hcurrent => ?_⟩
        have hread : cred.counter = counter := hcurrent cred hcred
        rw [hread]
        exact env.counter_rises _ _ _ _ hok
      · cases hnew
  | _ => exact .inl rfl

/-- A step that meets the condition keeps counters rising. -/
theorem Rising.of_move (h : Rising w) (hsound : Sound env w) (hmove : Move env i w w')
    (hcurrent : ∀ use ∈ w'.uses.drop w.uses.length, use.Current w) : Rising w' := by
  intro n
  rcases hmove.uses with huses | ⟨use, huses, hadded⟩
  · rw [World.counters, huses]
    exact h n
  rw [huses, List.drop_left] at hcurrent
  rw [World.counters, huses, List.filterMap_append]
  cases hcounter : use.counterOf n with
  | none =>
      rw [List.filterMap_cons_none hcounter, List.filterMap_nil, List.append_nil]
      exact h n
  | some newCounter =>
      rw [List.filterMap_cons_some hcounter, List.filterMap_nil]
      obtain ⟨c, hc, hahead⟩ := hadded n newCounter hcounter
      have hlast : Ahead c.counter newCounter := hahead (hcurrent use (List.mem_singleton_self use))
      refine List.pairwise_append.mpr ⟨h n, List.pairwise_singleton _ _, fun a ha b hb => ?_⟩
      obtain rfl := List.mem_singleton.mp hb
      -- the device has the counter of its last signature, and the others are behind that one
      obtain ⟨init, last, hinit⟩ : ∃ init last, w.counters n = init ++ [last] :=
        ⟨_, _, (List.dropLast_append_getLast (List.ne_nil_of_mem ha)).symm⟩
      have hstored : c.counter = last :=
        hsound.counters n c hc last (by rw [hinit, List.getLast?_concat]; rfl)
      have hpairwise := h n
      rw [hinit] at hpairwise
      change a ∈ w.counters n at ha
      rw [hinit] at ha
      rcases List.mem_append.mp ha with ha | ha
      · have hbehind := (List.pairwise_append.mp hpairwise).2.2 a ha last (List.mem_singleton_self _)
        exact hbehind.trans (hstored ▸ hlast)
      · rw [List.mem_singleton.mp ha, ← hstored]
        exact hlast

/-- **Counters rise** in every run in which no signature is taken in that was verified against an older
counter of its device; and each device has the counter of its last signature. -/
theorem counters_rise {now : Millis} {operators : List Operator} {users : List OperatorUser} {q : State}
    (hrun : (portalServer env).Run InOrder (initial now operators users) q) :
    Rising q.world ∧ ∀ (n : Nat) (c : WebauthnCredential), q.world.credentials[n]? = some c →
      ∀ last ∈ (q.world.counters n).getLast?, c.counter = last := by
  have hstart := Discipline.ok_of_no_tasks (D := discipline env) (sound_initial now operators users)
  have hinv := hrun.invariant (I := fun p => (discipline env).Ok p ∧ Rising p.world)
    ⟨hstart, fun n => List.Pairwise.nil⟩ fun p e q hs horder ⟨hok, hrising⟩ => ?_
  · exact ⟨hinv.2, hinv.1.inv.counters⟩
  obtain ⟨hok', hcase⟩ := hok.step hs trivial
  refine ⟨hok', ?_⟩
  rcases hcase with ⟨i, c, t, -, -, -, -, hmove⟩ | ⟨x, -, -, hw⟩ | hw
  · exact hrising.of_move hok.inv hmove horder
  · obtain ⟨w₁, -, -, huses, -⟩ := outside_moves hw 0
    intro n
    rw [World.counters, huses]
    exact hrising n
  · rw [hw]
    exact hrising

/-! ## Two signatures at once -/

namespace Sample

/-- Call `i` asks for a challenge with Ann's password. -/
def asking (i : Nat) : List Happening :=
  [.call (.webauthnBegin "ann@x.test".toList "blue".toList)] ++ runs i 6 "two".toList

/-- Ann's device answers challenge `c` with a counter. -/
def answer (c counter : Nat) : Happening :=
  .call (.webauthnVerify "ann@x.test".toList c ⟨"1".toList, signature counter "two".toList⟩)

/-- Ann enrols a device and asks for two challenges. -/
def askingTwice : List Happening :=
  inviting ++ enrolling 0 0 1 0 "ann@x.test".toList ++ asking 2 ++ asking 3

/-- Her device answers one after the other. -/
def inTurn : List Happening :=
  askingTwice ++ [answer 1 2] ++ runs 4 7 [] ++ [answer 2 3] ++ runs 5 7 []

/-- Both answers are verified before either is taken in, and the one with the greater counter is taken in
first. -/
def atOnce : List Happening :=
  askingTwice ++ [answer 1 5, answer 2 3] ++ runs 4 3 [] ++ runs 5 3 [] ++ runs 4 4 [] ++ runs 5 4 []

end Sample

/-- Two signatures of one device, in turn. -/
theorem counters_rise_two : ∃ q : State,
    (portalServer Sample.primitives).Run InOrder (initial 1000 [Sample.operator] []) q ∧
      (Rising q.world ∧ ∀ (n : Nat) (c : WebauthnCredential), q.world.credentials[n]? = some c →
        ∀ last ∈ (q.world.counters n).getLast?, c.counter = last) ∧ q.world.counters 0 = [2, 3] := by
  have hexec : ((portalServer Sample.primitives).exec InOrder (initial 1000 [Sample.operator] [])
      Sample.inTurn).map (fun q => q.world.counters 0) = some [2, 3] := by
    decide +kernel
  obtain ⟨q, hrun, hcounters⟩ := System.Run.of_exec_map hexec
  exact ⟨q, hrun, counters_rise hrun, hcounters⟩

/-- **A counter that falls**: two signatures of one device are verified at once. -/
theorem counter_falls : ¬ ∀ (env : Env) (now : Millis) (operators : List Operator)
    (users : List OperatorUser) (q : State),
    (portalServer env).Run Anything (initial now operators users) q → Rising q.world := by
  intro h
  have hexec : ((portalServer Sample.primitives).exec Anything (initial 1000 [Sample.operator] [])
      Sample.atOnce).map (fun q => q.world.counters 0) = some [5, 3] := by
    decide +kernel
  obtain ⟨q, hrun, hcounters⟩ := System.Run.of_exec_map hexec
  have hrising := h Sample.primitives 1000 [Sample.operator] [] q hrun 0
  rw [hcounters] at hrising
  exact absurd hrising (by decide)

end YantraRgs.Portal
