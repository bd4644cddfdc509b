import YantraRgs.Await.Program

/-! # Programs that nobody interrupts

What one call comes to when nobody else moves from its first action to its last.

* **`Prog.Ends`** — a program may end with a value and a world.
* **`Prog.Reads`** — it ends with one value, whatever the outside answers, and leaves the world
  alone. -/

namespace YantraRgs.Await.Prog

variable {W C α β : Type} {i : Nat} {w w' : W} {a : α}

/-- Program `p` of call `i` may end with `a` in `w'`, when nobody else moves from `w` on. -/
inductive Ends (i : Nat) : Prog W C α → W → α → W → Prop
  | ret {a : α} {w : W} : Ends i (.ret a) w a w
  | act {β : Type} {run : Nat → C → W → Option (β × W)} {next : β → Prog W C α} {c : C} {b : β}
      {a : α} {w w₁ w' : W} :
      run i c w = some (b, w₁) → Ends i (next b) w₁ a w' → Ends i (.act run next) w a w'

/-- Program `p` ends in `w` with `a` alone, and leaves `w` as it was. -/
def Reads (i : Nat) (p : Prog W C α) (w : W) (a : α) : Prop :=
  ∀ a' w', p.Ends i w a' w' ↔ a' = a ∧ w' = w

theorem Reads.ret : (.ret a : Prog W C α).Reads i w a := by
  intro a' w'
  constructor
  · rintro ⟨⟩
    exact ⟨rfl, rfl⟩
  · rintro ⟨rfl, rfl⟩
    exact .ret

/-- What follows a query goes on with what it read. -/
theorem Reads.query {γ : Type} {f : W → γ} {next : γ → Prog W C α} [Inhabited C]
    (h : (next (f w)).Reads i w a) : (Prog.query f >>= next).Reads i w a := by
  intro a' w'
  rw [← h a' w']
  constructor
  · intro hends
    cases hends with
    | act hrun hnext =>
        obtain ⟨rfl, rfl⟩ := Prod.mk.inj (Option.some.inj hrun)
        exact hnext
  · intro hends
    exact .act (c := default) rfl hends

/-- A sequence ends when its second part does, from where its first part ended. -/
theorem ends_bind_iff {γ : Type} {p : Prog W C γ} {next : γ → Prog W C α} :
    (p >>= next).Ends i w a w' ↔ ∃ b w₁, p.Ends i w b w₁ ∧ (next b).Ends i w₁ a w' := by
  induction p generalizing w with
  | ret b =>
      constructor
      · exact fun hends => ⟨b, w, .ret, hends⟩
      · rintro ⟨_, _, ⟨⟩, hends⟩
        exact hends
  | act run rest ih =>
      constructor
      · intro hends
        cases hends with
        | act hrun hrest =>
            obtain ⟨b, w₁, hb, hends⟩ := (ih _).mp hrest
            exact ⟨b, w₁, .act hrun hb, hends⟩
      · rintro ⟨b, w₁, hends, hnext⟩
        cases hends with
        | act hrun hrest => exact .act hrun ((ih _).mpr ⟨b, w₁, hrest, hnext⟩)

/-- A program goes on with what its first part reads. -/
theorem Reads.bind {γ : Type} {p : Prog W C γ} {next : γ → Prog W C α} {b : γ}
    (hp : p.Reads i w b) (h : (next b).Reads i w a) : (p >>= next).Reads i w a := by
  intro a' w'
  rw [ends_bind_iff, ← h a' w']
  constructor
  · rintro ⟨b', w₁, hb', hends⟩
    obtain ⟨rfl, rfl⟩ := (hp b' w₁).mp hb'
    exact hends
  · exact fun hends => ⟨b, w, (hp b w).mpr ⟨rfl, rfl⟩, hends⟩

end YantraRgs.Await.Prog
