import YantraRgs.Await.Program
import Mathlib.Data.List.Basic

/-! # Pools of running calls

A **system** serves calls: each call starts a program, the programs of all calls under way share
one world, and the outside changes that world too. A **pool** is the world together with every call
that was ever started; a call keeps its number for good.

* **`System`** — the program of each call, when a call may start, what the outside may do, and
  which calls an outside event takes down (a process that stops).
* **`System.step`** — one event: a call starts, a call runs its next action, a call is cut off,
  or the outside acts.
* **`System.Run`** — the runs whose every step meets a given condition.
* **`System.exec`** — a whole list of events; `System.Run.of_exec` turns it into a run.
* **`System.Run.began`** — the step of a run in which a call was made.
* **`System.Run.world_invariant`** — what every action and the outside keep holds all along. -/

namespace YantraRgs.Await

/-- A call that was started: what was called and what is left to run. -/
structure Task (W C K : Type) where
  /-- What was called. -/
  call : K
  /-- What is left to run. -/
  prog : Prog W C Unit

/-- The world and every call that was ever started. -/
structure Pool (W C K : Type) where
  /-- The shared world. -/
  world : W
  /-- The calls, in the order in which they started; the position is the call's number. -/
  tasks : List (Task W C K)

/-- What can happen next in a pool. -/
inductive Event (C K E : Type)
  /-- A call arrives. -/
  | call (k : K)
  /-- Call `i` runs its next action; the outside answers `c`. -/
  | run (i : Nat) (c : C)
  /-- Call `i` is cut off (its process stops, or an exception ends it). -/
  | kill (i : Nat)
  /-- The outside acts. -/
  | env (e : E)
  deriving DecidableEq

/-- What a server does: the program behind each call, when a call is admitted, what the outside can
do to the world, and which calls an outside event takes down. -/
structure System (W C K E : Type) where
  /-- The program of a call. -/
  code : K → Prog W C Unit
  /-- Whether a call may start now. -/
  admits : K → Pool W C K → Bool
  /-- An outside event, `none` when it cannot happen now. -/
  env : E → W → Option W
  /-- Whether the event takes the call down. -/
  dies : E → K → Bool

variable {W C K E : Type}

/-- What was called so far; the position is the call's number. -/
def Pool.calls (p : Pool W C K) : List K := p.tasks.map Task.call

/-- No condition on a step at all. -/
def Anything (_ : Pool W C K) (_ : Event C K E) (_ : Pool W C K) : Prop := True

instance (p : Pool W C K) (e : Event C K E) (q : Pool W C K) : Decidable (Anything p e q) :=
  .isTrue trivial

/-- The call after it was cut off: nothing is left to run. -/
def Task.cut (t : Task W C K) : Task W C K := { t with prog := .ret () }

namespace System

variable (S : System W C K E)

/-- Call `i` runs its next action with the outside answering `c`. -/
def runTask (p : Pool W C K) (i : Nat) (c : C) : Option (Pool W C K) :=
  match p.tasks[i]? with
  | some ⟨k, .act run next⟩ =>
      (run i c p.world).map fun r => ⟨r.2, p.tasks.set i ⟨k, next r.1⟩⟩
  | _ => none

/-- One event of the pool. -/
def step (p : Pool W C K) : Event C K E → Option (Pool W C K)
  | .call k => if S.admits k p then some ⟨p.world, p.tasks ++ [⟨k, S.code k⟩]⟩ else none
  | .run i c => runTask p i c
  | .kill i => some ⟨p.world, p.tasks.modify i Task.cut⟩
  | .env e =>
      (S.env e p.world).map fun w =>
        ⟨w, p.tasks.map fun t => if S.dies e t.call then t.cut else t⟩

/-- A list of events, one after the other, as long as every step meets `A`. -/
def exec (A : Pool W C K → Event C K E → Pool W C K → Prop) [∀ p e q, Decidable (A p e q)]
    (p : Pool W C K) : List (Event C K E) → Option (Pool W C K)
  | [] => some p
  | e :: es => (S.step p e).bind fun q => if A p e q then exec A q es else none

/-- The **runs** from a pool whose every step meets `A` (the pool before, the event, the pool
after). -/
inductive Run (A : Pool W C K → Event C K E → Pool W C K → Prop) (p : Pool W C K) :
    Pool W C K → Prop
  /-- The empty run. -/
  | start : Run A p p
  /-- One more step that meets the condition. -/
  | step {q r : Pool W C K} (e : Event C K E) : Run A p q → S.step q e = some r → A q e r →
      Run A p r

variable {S}
variable {A B : Pool W C K → Event C K E → Pool W C K → Prop} {p q r : Pool W C K}

/-- Runs compose. -/
theorem Run.trans (h₁ : S.Run A p q) (h₂ : S.Run A q r) : S.Run A p r := by
  induction h₂ with
  | start => exact h₁
  | step e _ hstep hA ih => exact .step e ih hstep hA

/-- A run under a condition is a run under a weaker one. -/
theorem Run.mono (hAB : ∀ p e q, A p e q → B p e q) (h : S.Run A p q) : S.Run B p q := by
  induction h with
  | start => exact .start
  | step e _ hstep hA ih => exact .step e ih hstep (hAB _ _ _ hA)

/-- A property that holds at the start and that every permitted step keeps holds all along. -/
theorem Run.invariant {I : Pool W C K → Prop} (h : S.Run A p q) (h₀ : I p)
    (hstep : ∀ p e q, S.step p e = some q → A p e q → I p → I q) : I q := by
  induction h with
  | start => exact h₀
  | step e _ hs hA ih => exact hstep _ e _ hs hA ih

/-- A list of events that executes with every step meeting the condition is a run. -/
theorem Run.of_exec [∀ p e q, Decidable (A p e q)] {es : List (Event C K E)}
    (h : S.exec A p es = some q) : S.Run A p q := by
  induction es generalizing p with
  | nil =>
      obtain rfl : p = q := by simpa [exec] using h
      exact .start
  | cons e es ih =>
      obtain ⟨p', hp', h'⟩ := Option.bind_eq_some_iff.mp h
      split at h'
      · exact Run.trans (.step e .start hp' (by assumption)) (ih h')
      · cases h'

/-- A list of events that executes and leads to a value of a function of the pool is a run to a pool
with that value. -/
theorem Run.of_exec_map [∀ p e q, Decidable (A p e q)] {es : List (Event C K E)} {T : Type}
    {f : Pool W C K → T} {v : T} (h : (S.exec A p es).map f = some v) :
    ∃ q, S.Run A p q ∧ f q = v := by
  obtain ⟨q, hq, hv⟩ := Option.map_eq_some_iff.mp h
  exact ⟨q, .of_exec hq, hv⟩

/-- **Two conditions that agree step by step** let the same lists of events through: they agree from
every pool that meets `I`, and a step that meets them keeps `I`. -/
theorem exec_congr [∀ p e q, Decidable (A p e q)] [∀ p e q, Decidable (B p e q)]
    {I : Pool W C K → Prop} (es : List (Event C K E)) (h : I p)
    (hstep : ∀ {p e q}, I p → S.step p e = some q → (A p e q ↔ B p e q) ∧ (B p e q → I q)) :
    S.exec A p es = S.exec B p es := by
  induction es generalizing p with
  | nil => rfl
  | cons e es ih =>
      simp only [exec]
      refine Option.bind_congr fun q hs => ?_
      obtain ⟨hiff, hnext⟩ := hstep h hs
      by_cases hB : B p e q
      · rw [if_pos hB, if_pos (hiff.mpr hB)]
        exact ih (hnext hB)
      · rw [if_neg hB, if_neg (mt hiff.mp hB)]

/-! ## What one event does to the world and to the calls -/

/-- A call runs its next action: its program was about to run it, the world is the one the action
hands back, and only that call moved. -/
theorem runTask_cases {i : Nat} {c : C} (h : runTask p i c = some q) :
    ∃ k, ∃ β, ∃ run : Nat → C → W → Option (β × W), ∃ next, ∃ b, ∃ w,
      p.tasks[i]? = some ⟨k, .act run next⟩ ∧ run i c p.world = some (b, w) ∧
        q = ⟨w, p.tasks.set i ⟨k, next b⟩⟩ := by
  unfold runTask at h
  split at h
  · rename_i k β run next hi
    obtain ⟨⟨b, w⟩, hb, hq⟩ := Option.map_eq_some_iff.mp h
    exact ⟨k, β, run, next, b, w, hi, hb, hq.symm⟩
  · cases h

/-- A call is made: it may be, the world stays, and it is the last task. -/
theorem call_cases {k : K} (h : S.step p (.call k) = some q) :
    S.admits k p = true ∧ q = ⟨p.world, p.tasks ++ [⟨k, S.code k⟩]⟩ := by
  simp only [step] at h
  split at h
  · rename_i hadm
    exact ⟨hadm, (Option.some.inj h).symm⟩
  · cases h

/-- The list of calls only grows, by the call that an event makes. -/
theorem step_calls {e : Event C K E} (h : S.step p e = some q) :
    q.calls = p.calls ++ match e with
      | .call k => [k]
      | _ => [] := by
  have hmap : ∀ (f : Task W C K → Task W C K) (l : List (Task W C K)),
      (∀ t, (f t).call = t.call) → (l.map f).map Task.call = l.map Task.call := by
    intro f l hf
    simp only [List.map_map]
    exact List.map_congr_left fun t _ => hf t
  cases e with
  | call k =>
      obtain ⟨-, rfl⟩ := call_cases h
      simp [Pool.calls]
  | run i c =>
      obtain ⟨k, β, run, next, b, w, hi, -, rfl⟩ := runTask_cases h
      have hk : (p.tasks.map Task.call)[i]? = some k := by simp [hi]
      obtain ⟨hlt, hget⟩ := List.getElem?_eq_some_iff.mp hk
      simp only [Pool.calls, List.map_set, List.append_nil]
      rw [← hget, List.set_getElem_self]
  | kill i =>
      obtain rfl : _ = q := by simpa [step] using h
      simp only [Pool.calls, List.append_nil]
      refine List.ext_getElem? fun n => ?_
      simp only [List.getElem?_map, List.getElem?_modify]
      cases p.tasks[n]? with
      | none => rfl
      | some t => simp only [Option.map_some]; split <;> rfl
  | env x =>
      obtain ⟨w, -, rfl⟩ := Option.map_eq_some_iff.mp h
      simp only [Pool.calls, List.append_nil]
      exact hmap _ _ fun t => by split <;> rfl

/-- What an event does to the world: an action of a call and an outside event may change it, and
nothing else does. -/
theorem step_world {e : Event C K E} (h : S.step p e = some q) :
    (∃ i c, e = .run i c) ∨ (∃ x, e = .env x ∧ S.env x p.world = some q.world) ∨
      q.world = p.world := by
  cases e with
  | run i c => exact .inl ⟨i, c, rfl⟩
  | call k =>
      obtain ⟨-, rfl⟩ := call_cases h
      exact .inr (.inr rfl)
  | kill i =>
      obtain rfl : _ = q := by simpa [step] using h
      exact .inr (.inr rfl)
  | env x =>
      obtain ⟨w, hw, rfl⟩ := Option.map_eq_some_iff.mp h
      exact .inr (.inl ⟨x, rfl, hw⟩)

/-- What was called stays called. -/
theorem step_calls_grow {e : Event C K E} (h : S.step p e = some q) : p.calls <+: q.calls :=
  ⟨_, (step_calls h).symm⟩

/-- A call that is made gets the next number; every other event leaves the numbers alone. -/
theorem step_length {e : Event C K E} (h : S.step p e = some q) :
    q.tasks.length = p.tasks.length + match e with
      | .call _ => 1
      | _ => 0 := by
  have hlen := congrArg List.length (step_calls h)
  cases e <;> simpa [Pool.calls] using hlen

/-- Numbers of calls are never given back. -/
theorem Run.length_le (h : S.Run A p q) : p.tasks.length ≤ q.tasks.length := by
  induction h with
  | start => exact Nat.le_refl _
  | step e _ hs _ ih =>
      rw [step_length hs]
      exact Nat.le_trans ih (Nat.le_add_right _ _)

/-- In a run that comes to `n` calls, every call that is made has a smaller number. -/
theorem Run.calls_lt (h : S.Run A p q) :
    S.Run (fun p e r => A p e r ∧ ∀ k, e = .call k → p.tasks.length < q.tasks.length) p q := by
  induction h with
  | start => exact .start
  | step e _ hs hA ih =>
      have hlen := step_length hs
      refine .step e (ih.mono fun p e r hr => ⟨hr.1, fun k hk => ?_⟩) hs ⟨hA, fun k hk => ?_⟩
      · exact Nat.lt_of_lt_of_le (hr.2 k hk) (by omega)
      · subst hk
        exact hlen ▸ Nat.lt_succ_self _

/-- In a run from a pool of `n` calls, every call that is made has the number `n` or a greater one. -/
theorem Run.calls_ge (h : S.Run A p q) :
    S.Run (fun r e t => A r e t ∧ ∀ k, e = .call k → p.tasks.length ≤ r.tasks.length) p q := by
  induction h with
  | start => exact .start
  | step e hrun hs hA ih => exact .step e ih hs ⟨hA, fun _ _ => hrun.length_le⟩

/-- **Where a call began**: call `i` was made in a step of the run from a pool of `i` calls. -/
theorem Run.began (h : S.Run A p q) {i : Nat} (hp : p.tasks.length ≤ i) (hq : i < q.tasks.length) :
    ∃ v k v', v.tasks.length = i ∧ S.step v (.call k) = some v' ∧ A v (.call k) v' ∧
      S.Run A p v ∧ S.Run A v' q := by
  induction h with
  | start => omega
  | @step q r e hrun hs hA ih =>
      have hlen := step_length hs
      by_cases hi : i < q.tasks.length
      · obtain ⟨v, k, v', hv, hvs, hvA, hpv, hvq⟩ := ih hi
        exact ⟨v, k, v', hv, hvs, hvA, hpv, .step e hvq hs hA⟩
      · cases e with
        | call k =>
            simp only at hlen
            exact ⟨q, k, r, by omega, hs, hA, hrun, .start⟩
        | _ =>
            simp only at hlen
            omega

/-- Call `v.tasks.length` of a run from the pool `v'` is the one that led there from `v`. -/
theorem Run.made {v : Pool W C K} {k : K} (h : S.Run A p q) (hs : S.step v (.call k) = some p) :
    q.calls[v.tasks.length]? = some k := by
  have hk : p.calls[v.tasks.length]? = some k := by
    rw [step_calls hs]
    simp [Pool.calls]
  obtain ⟨rest, hrest⟩ := h.invariant (I := fun r => p.calls <+: r.calls) (List.prefix_refl _)
    fun _ _ _ hs _ hle => hle.trans (step_calls_grow hs)
  rw [← hrest, List.getElem?_append_left (List.getElem?_eq_some_iff.mp hk).1, hk]

/-! ## Worlds -/

variable {R : W → W → Prop}

/-- In a pool whose calls all move the world along `R`, an event does so or leaves the world alone,
and the calls go on doing so. -/
theorem step_keeps {e : Event C K E} (hcode : ∀ k, (S.code k).Keeps R)
    (henv : ∀ x w w', S.env x w = some w' → R w w') (hp : ∀ t ∈ p.tasks, t.prog.Keeps R)
    (h : S.step p e = some q) :
    (R p.world q.world ∨ q.world = p.world) ∧ ∀ t ∈ q.tasks, t.prog.Keeps R := by
  have hcut : ∀ t : Task W C K, t.cut.prog.Keeps R := fun t => trivial
  cases e with
  | call k =>
      obtain ⟨-, rfl⟩ := call_cases h
      refine ⟨.inr rfl, fun t ht => ?_⟩
      rcases List.mem_append.mp ht with ht | ht
      · exact hp t ht
      · rw [List.mem_singleton.mp ht]
        exact hcode k
  | run i c =>
      obtain ⟨k, β, run, next, b, w, hi, hrun, rfl⟩ := runTask_cases h
      have hkeeps := hp _ (List.mem_of_getElem? hi)
      refine ⟨.inl (hkeeps.1 i c _ b w hrun), fun t ht => ?_⟩
      rcases List.mem_or_eq_of_mem_set ht with ht | rfl
      · exact hp t ht
      · exact hkeeps.2 b
  | kill i =>
      obtain rfl : _ = q := by simpa [step] using h
      refine ⟨.inr rfl, fun t ht => ?_⟩
      obtain ⟨n, hn⟩ := List.mem_iff_getElem?.mp ht
      rw [List.getElem?_modify] at hn
      obtain ⟨t', ht', rfl⟩ := Option.map_eq_some_iff.mp hn
      split
      · exact hcut t'
      · exact hp t' (List.mem_of_getElem? ht')
  | env x =>
      obtain ⟨w, hw, rfl⟩ := Option.map_eq_some_iff.mp h
      refine ⟨.inl (henv x _ w hw), fun t ht => ?_⟩
      obtain ⟨t', ht', rfl⟩ := List.mem_map.mp ht
      split
      · exact hcut t'
      · exact hp t' ht'

/-- **An invariant of the world**: every action of every call keeps it, and so does the outside. -/
theorem Run.world_invariant {I : W → Prop} (h : S.Run A p q)
    (hcode : ∀ k, (S.code k).Keeps fun w w' => I w → I w')
    (henv : ∀ x w w', S.env x w = some w' → I w → I w') (hp : p.tasks = []) (h₀ : I p.world) :
    I q.world := by
  refine (h.invariant
    (I := fun r => I r.world ∧ ∀ t ∈ r.tasks, t.prog.Keeps fun w w' => I w → I w')
    ⟨h₀, fun t ht => ?_⟩ fun r e r' hs _ hr => ?_).1
  · rw [hp] at ht
    cases ht
  · obtain ⟨hworld, htasks⟩ := step_keeps hcode henv hr.2 hs
    refine ⟨?_, htasks⟩
    rcases hworld with hmove | heq
    · exact hmove hr.1
    · exact heq ▸ hr.1

end System

end YantraRgs.Await
