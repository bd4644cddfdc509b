import Mathlib.Logic.Basic

/-! # Programs made of atomic actions

An `async` function runs in pieces: up to the next `await` nobody else moves, and at every `await`
anything may happen before it goes on. Here such a function is a **program**: a tree of atomic
actions over a shared world `W`.

* **`Prog W C α`** — a program that ends with a value of type `α`. One action sees the number of
  the call that runs it, an answer `C` chosen by the outside, and the world; it hands back a value
  and the next world, or `none` when it cannot go on yet.
* **`Prog.bind`** and the `Monad` instance — `do` blocks over programs read like the source.
* **`Prog.query`**, **`Prog.request`** — the two plain actions: read the world, change the world. -/

namespace YantraRgs.Await

/-- A **program** over worlds `W` with outside answers `C`: it has ended with a value, or it is
about to run an atomic action and go on with the value the action hands back. -/
inductive Prog (W C α : Type) : Type 1
  /-- The program has ended with `value`. -/
  | ret (value : α)
  /-- The program is about to run `run` for the call with the given number. -/
  | act {β : Type} (run : Nat → C → W → Option (β × W)) (next : β → Prog W C α)

namespace Prog

variable {W C α β γ : Type}

/-- Sequencing: run `p`, then the program its value selects. -/
def bind : Prog W C α → (α → Prog W C β) → Prog W C β
  | .ret a, f => f a
  | .act run next, f => .act run fun b => (next b).bind f

instance : Monad (Prog W C) where
  pure := .ret
  bind := bind

/-- `pure a` is the program that has ended with `a`. -/
@[simp] theorem pure_eq (a : α) : (pure a : Prog W C α) = .ret a := rfl

/-- An ended program hands its value straight to what follows. -/
@[simp] theorem ret_bind (a : α) (f : α → Prog W C β) : (.ret a >>= f) = f a := rfl

/-- Sequencing after an action is sequencing under the action. -/
theorem act_bind (run : Nat → C → W → Option (γ × W)) (next : γ → Prog W C α)
    (f : α → Prog W C β) : (.act run next >>= f) = .act run fun b => next b >>= f := rfl

/-- One action as a program. -/
def lift (run : Nat → C → W → Option (α × W)) : Prog W C α := .act run .ret

/-- Read the world. -/
def query (f : W → α) : Prog W C α := lift fun _ _ w => some (f w, w)

/-- Change the world and hand back a value; the action may depend on the number of the call. -/
def request (f : Nat → W → α × W) : Prog W C α := lift fun i _ w => some (f i w)

/-- Change the world. -/
def modify (f : W → W) : Prog W C Unit := request fun _ w => ((), f w)

/-- Wait until the world lets the program go on. -/
def block (ready : W → Bool) : Prog W C Unit :=
  lift fun _ _ w => if ready w then some ((), w) else none

/-- A program that never goes on. -/
def hang : Prog W C α := @act W C α Empty (fun _ _ _ => none) Empty.elim

/-- Whether a program has ended. -/
def ended : Prog W C α → Bool
  | .ret _ => true
  | .act _ _ => false

/-- Run `f` on every element of a list, one after the other. -/
def each (f : β → Prog W C Unit) : List β → Prog W C Unit
  | [] => .ret ()
  | b :: bs => do
      f b
      each f bs

/-- Run `f` on every element of a list, one after the other, carrying a value along. -/
def fold (f : γ → β → Prog W C γ) : γ → List β → Prog W C γ
  | s, [] => .ret s
  | s, b :: bs => do
      let s' ← f s b
      fold f s' bs

/-- Run a program under a `try`: before any of its actions the outside may throw, and then the rest
of the program is given up. -/
def catching (throws : C → Bool) : Prog W C α → Prog W C (Option α)
  | .ret a => .ret (some a)
  | @act _ _ _ β run next =>
      @act W C (Option α) (Option β)
        (fun i c w =>
          if throws c then some (none, w) else (run i c w).map fun r => (some r.1, r.2))
        fun b =>
          match b with
          | none => .ret none
          | some b => (next b).catching throws

/-- A `try` around a sequence: what throws in the first part gives up the second. -/
theorem catching_bind (throws : C → Bool) (p : Prog W C α) (f : α → Prog W C β) :
    (p >>= f).catching throws = p.catching throws >>= fun o =>
      match o with
      | none => .ret none
      | some a => (f a).catching throws := by
  induction p with
  | ret a => rfl
  | act run next ih =>
      simp only [act_bind, catching]
      congr 1
      funext o
      cases o with
      | none => rfl
      | some b => exact ih b

/-- Every action of a program moves the world along `S`. -/
def Keeps (S : W → W → Prop) : Prog W C α → Prop
  | .ret _ => True
  | .act run next =>
      (∀ i c w b w', run i c w = some (b, w') → S w w') ∧ ∀ b, (next b).Keeps S

namespace Keeps

variable {S : W → W → Prop}

theorem bind {p : Prog W C α} {f : α → Prog W C β} (hp : p.Keeps S) (hf : ∀ a, (f a).Keeps S) :
    (p >>= f).Keeps S := by
  induction p with
  | ret a => exact hf a
  | act run next ih => exact ⟨hp.1, fun b => ih b (hp.2 b)⟩

theorem mono {S' : W → W → Prop} {p : Prog W C α} (hp : p.Keeps S) (h : ∀ {w w'}, S w w' → S' w w') :
    p.Keeps S' := by
  induction p with
  | ret a => trivial
  | act run next ih => exact ⟨fun i c w b w' hr => h (hp.1 i c w b w' hr), fun b => ih b (hp.2 b)⟩

theorem lift {run : Nat → C → W → Option (α × W)}
    (h : ∀ i c w a w', run i c w = some (a, w') → S w w') : (Prog.lift run).Keeps S :=
  ⟨h, fun _ => trivial⟩

theorem query (hrefl : ∀ w, S w w) (f : W → α) : (Prog.query f : Prog W C α).Keeps S := by
  refine lift fun i c w a w' h => ?_
  obtain ⟨-, rfl⟩ : f w = a ∧ w = w' := by simpa using h
  exact hrefl w

theorem request {f : Nat → W → α × W} (h : ∀ i w, S w (f i w).2) :
    (Prog.request f : Prog W C α).Keeps S := by
  refine lift fun i c w a w' hrun => ?_
  have hw : (f i w).2 = w' := congrArg Prod.snd (Option.some.inj hrun)
  exact hw ▸ h i w

theorem modify {f : W → W} (h : ∀ w, S w (f w)) : (Prog.modify f : Prog W C Unit).Keeps S :=
  request fun _ => h

theorem block (hrefl : ∀ w, S w w) (ready : W → Bool) :
    (Prog.block ready : Prog W C Unit).Keeps S := by
  refine lift fun i c w a w' h => ?_
  split at h
  · obtain rfl : w = w' := by simpa using h
    exact hrefl w
  · cases h

theorem hang : (Prog.hang : Prog W C α).Keeps S :=
  ⟨fun _ _ _ b => b.elim, fun b => b.elim⟩

theorem catching (hrefl : ∀ w, S w w) (throws : C → Bool) {p : Prog W C α} (hp : p.Keeps S) :
    (p.catching throws).Keeps S := by
  induction p with
  | ret a => trivial
  | act run next ih =>
      rw [Prog.catching]
      refine ⟨fun i c w b w' h => ?_, fun b => ?_⟩
      · dsimp only at h
        split at h
        · obtain rfl : w = w' := congrArg Prod.snd (Option.some.inj h)
          exact hrefl w
        · obtain ⟨r, hr, he⟩ := Option.map_eq_some_iff.mp h
          have hw : r.2 = w' := congrArg Prod.snd he
          exact hp.1 i c w r.1 w' (hw ▸ hr)
      · cases b with
        | none => trivial
        | some b => exact ih b (hp.2 b)

theorem each {f : β → Prog W C Unit} (hf : ∀ b, (f b).Keeps S) (l : List β) :
    (Prog.each f l).Keeps S := by
  induction l with
  | nil => trivial
  | cons b bs ih => exact bind (hf b) fun _ => ih

theorem fold {f : γ → β → Prog W C γ} (hf : ∀ s b, (f s b).Keeps S) (s : γ) (l : List β) :
    (Prog.fold f s l).Keeps S := by
  induction l generalizing s with
  | nil => trivial
  | cons b bs ih => exact bind (hf s b) fun s' => ih s'

end Keeps

end Prog

end YantraRgs.Await
