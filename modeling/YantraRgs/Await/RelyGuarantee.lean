import YantraRgs.Await.Pool

/-! # Rely and guarantee for pools of calls

The calls of a pool interleave at every action. To reason about one call alone we say what the
others may do meanwhile (its **rely**) and what each of its own actions may do (its **guarantee**),
under an invariant of the world and for the steps a run permits.

* **`Rules`** — invariant, permitted steps, rely and guarantee of one call.
* **`Go ρ i p Q w`** — call `i` may go on with program `p` from world `w`: whatever the rely does
  before each action, the action keeps to the guarantee, and if the program ends it ends in `Q`.
  Spec lemmas: `Go.bind_iff`, `Go.query`, `Go.request`, `Go.each`, `Go.fold`.
* **`Discipline`** — rules for every call of a system that fit together: a guarantee of one call is
  within the rely of every other.
* **`Discipline.Ok.run`**, **`Discipline.Ok.step`** — along every permitted run the invariant holds,
  every call may go on, and every step is a guaranteed step of one call, an outside event, or
  leaves the world alone. -/

namespace YantraRgs.Await

variable {W C K E : Type} {α β γ : Type}

/-- The rules for one call. -/
structure Rules (W : Type) where
  /-- What holds of the world at all times. -/
  inv : W → Prop
  /-- Which steps a run permits. -/
  permit : W → W → Prop
  /-- What the others may do before the call's next action. -/
  rely : W → W → Prop
  /-- What one action of the call may do. -/
  guar : W → W → Prop

/-- Call `i` **may go on** with a program from world `w` and ends in `Q`: after any interference,
each permitted action keeps to the guarantee, and so does what follows. -/
def Go (ρ : Rules W) (i : Nat) : Prog W C α → (α → W → Prop) → W → Prop
  | .ret a, Q, w => Q a w
  | .act run next, Q, w => ∀ w₁, ρ.rely w w₁ → ρ.inv w₁ → ∀ c b w₂, run i c w₁ = some (b, w₂) →
      ρ.permit w₁ w₂ → ρ.guar w₁ w₂ ∧ (ρ.inv w₂ → Go ρ i (next b) Q w₂)

namespace Go

variable {ρ : Rules W} {i : Nat} {w : W}

@[simp] theorem ret_iff {a : α} {Q : α → W → Prop} :
    Go ρ i (.ret a : Prog W C α) Q w ↔ Q a w := Iff.rfl

theorem act_iff {run : Nat → C → W → Option (β × W)} {next : β → Prog W C α}
    {Q : α → W → Prop} :
    Go ρ i (.act run next) Q w ↔ ∀ w₁, ρ.rely w w₁ → ρ.inv w₁ → ∀ c b w₂,
      run i c w₁ = some (b, w₂) → ρ.permit w₁ w₂ →
        ρ.guar w₁ w₂ ∧ (ρ.inv w₂ → Go ρ i (next b) Q w₂) := Iff.rfl

/-- A program may end in a weaker postcondition. -/
theorem mono {p : Prog W C α} {Q Q' : α → W → Prop} (h : Go ρ i p Q w)
    (hQ : ∀ a w', Q a w' → Q' a w') : Go ρ i p Q' w := by
  induction p generalizing w with
  | ret a => exact hQ a w h
  | act run next ih =>
      intro w₁ hr hi c b w₂ hrun hp
      obtain ⟨hg, hn⟩ := h w₁ hr hi c b w₂ hrun hp
      exact ⟨hg, fun hi₂ => ih b (hn hi₂)⟩

/-- Sequencing: the first program ends where the second may go on. -/
theorem bind_iff {p : Prog W C α} {f : α → Prog W C β} {Q : β → W → Prop} :
    Go ρ i (p >>= f) Q w ↔ Go ρ i p (fun a w' => Go ρ i (f a) Q w') w := by
  induction p generalizing w with
  | ret a => exact Iff.rfl
  | act run next ih =>
      rw [Prog.act_bind, act_iff, act_iff]
      refine forall_congr' fun w₁ => forall_congr' fun _ => forall_congr' fun _ =>
        forall_congr' fun c => forall_congr' fun b => forall_congr' fun w₂ =>
        forall_congr' fun _ => forall_congr' fun _ => and_congr_right fun _ =>
        forall_congr' fun _ => ?_
      exact ih b

/-- One action: it keeps to the guarantee and ends in `Q`. -/
theorem lift {run : Nat → C → W → Option (α × W)} {Q : α → W → Prop}
    (h : ∀ w₁, ρ.rely w w₁ → ρ.inv w₁ → ∀ c a w₂, run i c w₁ = some (a, w₂) → ρ.permit w₁ w₂ →
      ρ.guar w₁ w₂ ∧ (ρ.inv w₂ → Q a w₂)) : Go ρ i (Prog.lift run) Q w := h

/-- Reading the world keeps to a reflexive guarantee. -/
theorem query {f : W → α} {Q : α → W → Prop} (hrefl : ∀ w, ρ.guar w w)
    (h : ∀ w₁, ρ.rely w w₁ → ρ.inv w₁ → Q (f w₁) w₁) :
    Go ρ i (Prog.query f : Prog W C α) Q w := by
  refine lift fun w₁ hr hi c a w₂ hrun _ => ?_
  obtain ⟨rfl, rfl⟩ : f w₁ = a ∧ w₁ = w₂ := by simpa using hrun
  exact ⟨hrefl w₁, fun _ => h w₁ hr hi⟩

/-- Changing the world. -/
theorem request {f : Nat → W → α × W} {Q : α → W → Prop}
    (h : ∀ w₁, ρ.rely w w₁ → ρ.inv w₁ → ρ.permit w₁ (f i w₁).2 →
      ρ.guar w₁ (f i w₁).2 ∧ (ρ.inv (f i w₁).2 → Q (f i w₁).1 (f i w₁).2)) :
    Go ρ i (Prog.request f : Prog W C α) Q w := by
  refine lift fun w₁ hr hi c a w₂ hrun hp => ?_
  obtain ⟨rfl, rfl⟩ : (f i w₁).1 = a ∧ (f i w₁).2 = w₂ := by
    have h' : f i w₁ = (a, w₂) := by simpa using hrun
    simp [h']
  exact h w₁ hr hi hp

/-- Changing the world, with nothing handed back. -/
theorem modify {f : W → W} {Q : Unit → W → Prop}
    (h : ∀ w₁, ρ.rely w w₁ → ρ.inv w₁ → ρ.permit w₁ (f w₁) →
      ρ.guar w₁ (f w₁) ∧ (ρ.inv (f w₁) → Q () (f w₁))) :
    Go ρ i (Prog.modify f : Prog W C Unit) Q w := request h

/-- Waiting leaves the world alone. -/
theorem block {ready : W → Bool} {Q : Unit → W → Prop} (hrefl : ∀ w, ρ.guar w w)
    (h : ∀ w₁, ρ.rely w w₁ → ρ.inv w₁ → Q () w₁) :
    Go ρ i (Prog.block ready : Prog W C Unit) Q w := by
  refine lift fun w₁ hr hi c a w₂ hrun _ => ?_
  split at hrun
  · obtain rfl : w₁ = w₂ := by simpa using hrun
    exact ⟨hrefl w₁, fun _ => h w₁ hr hi⟩
  · cases hrun

/-- A program that never goes on keeps to any rules. -/
theorem hang {Q : α → W → Prop} : Go ρ i (Prog.hang : Prog W C α) Q w := by
  intro w₁ _ _ c b
  exact b.elim

/-- A loop over a list, with `I` holding before each round for the elements that are left. -/
theorem each {f : β → Prog W C Unit} {l : List β} {Q : Unit → W → Prop}
    (I : List β → W → Prop) (h₀ : I l w)
    (hstep : ∀ b bs w, I (b :: bs) w → Go ρ i (f b) (fun _ w' => I bs w') w)
    (hQ : ∀ w, I [] w → Q () w) : Go ρ i (Prog.each f l) Q w := by
  induction l generalizing w with
  | nil => exact hQ w h₀
  | cons b bs ih =>
      rw [Prog.each, bind_iff]
      exact (hstep b bs w h₀).mono fun _ w' h' => ih h'

/-- A loop over a list that carries a value along. -/
theorem fold {f : γ → β → Prog W C γ} {s : γ} {l : List β} {Q : γ → W → Prop}
    (I : γ → List β → W → Prop) (h₀ : I s l w)
    (hstep : ∀ s b bs w, I s (b :: bs) w → Go ρ i (f s b) (fun s' w' => I s' bs w') w)
    (hQ : ∀ s w, I s [] w → Q s w) : Go ρ i (Prog.fold f s l) Q w := by
  induction l generalizing w s with
  | nil => exact hQ s w h₀
  | cons b bs ih =>
      rw [Prog.fold, bind_iff]
      exact (hstep s b bs w h₀).mono fun _ w' h' => ih h'

/-- What both the others and the call's own actions preserve relates the worlds before and after. -/
theorem track {T : W → W → Prop} {v : W} {p : Prog W C α} {Q : α → W → Prop} (h : Go ρ i p Q w)
    (hv : T v w) (htrans : ∀ {a b c}, T a b → T b c → T a c)
    (hrely : ∀ {w w'}, ρ.rely w w' → T w w')
    (hstep : ∀ {w w'}, ρ.permit w w' → ρ.guar w w' → T w w') :
    Go ρ i p (fun a w' => Q a w' ∧ T v w') w := by
  induction p generalizing w with
  | ret a => exact ⟨h, hv⟩
  | act run next ih =>
      intro w₁ hr hi c b w₂ hrun hp
      obtain ⟨hg, hn⟩ := h w₁ hr hi c b w₂ hrun hp
      exact ⟨hg, fun hi₂ => ih b (hn hi₂) (htrans (htrans hv (hrely hr)) (hstep hp hg))⟩

/-- A program keeps to a weaker guarantee. -/
theorem mono_guar {G : W → W → Prop} {p : Prog W C α} {Q : α → W → Prop} (h : Go ρ i p Q w)
    (hG : ∀ {w w'}, ρ.guar w w' → G w w') : Go { ρ with guar := G } i p Q w := by
  induction p generalizing w with
  | ret a => exact h
  | act run next ih =>
      intro w₁ hr hi c b w₂ hrun hp
      obtain ⟨hg, hn⟩ := h w₁ hr hi c b w₂ hrun hp
      exact ⟨hG hg, fun hi₂ => ih b (hn hi₂)⟩

/-- A program under a `try`: it ends as it does without, or it is given up where `R` holds. -/
theorem catching (throws : C → Bool) {R : W → Prop} {p : Prog W C α} {Q : α → W → Prop}
    (h : Go ρ i p Q w) (hR : R w) (hrely : ∀ {w w'}, ρ.rely w w' → R w → R w')
    (hguar : ∀ {w w'}, ρ.guar w w' → R w → R w') (hrefl : ∀ {w}, R w → ρ.guar w w) :
    Go ρ i (p.catching throws) (fun o w' => o.elim (R w') fun a => Q a w') w := by
  induction p generalizing w with
  | ret a => exact h
  | act run next ih =>
      rw [Prog.catching]
      intro w₁ hr hi c o w₂ hrun hp
      have hR₁ : R w₁ := hrely hr hR
      dsimp only at hrun
      split at hrun
      · obtain ⟨rfl, rfl⟩ : none = o ∧ w₁ = w₂ := by simpa using hrun
        exact ⟨hrefl hR₁, fun _ => hR₁⟩
      · obtain ⟨⟨b, w₃⟩, hb, he⟩ := Option.map_eq_some_iff.mp hrun
        obtain ⟨rfl, rfl⟩ : some b = o ∧ w₃ = w₂ := by simpa using he
        obtain ⟨hg, hn⟩ := h w₁ hr hi c b w₃ hb hp
        exact ⟨hg, fun hi₂ => ih b (hn hi₂) (hguar hg hR₁)⟩

/-- A single action under a `try`. -/
theorem catching_lift {R : W → Prop} {throws : C → Bool} {run : Nat → C → W → Option (α × W)}
    {Q : α → W → Prop} (h : Go ρ i (Prog.lift run) Q w) (hR : R w)
    (hrely : ∀ {w w'}, ρ.rely w w' → R w → R w') (hrefl : ∀ {w}, R w → ρ.guar w w) :
    Go ρ i ((Prog.lift run).catching throws) (fun o w' => o.elim (R w') fun a => Q a w') w := by
  rw [Prog.lift, Prog.catching]
  intro w₁ hr hi c o w₂ hrun hp
  have hR₁ : R w₁ := hrely hr hR
  dsimp only at hrun
  split at hrun
  · obtain ⟨rfl, rfl⟩ : none = o ∧ w₁ = w₂ := by simpa using hrun
    exact ⟨hrefl hR₁, fun _ => hR₁⟩
  · obtain ⟨⟨b, w₃⟩, hb, he⟩ := Option.map_eq_some_iff.mp hrun
    obtain ⟨rfl, rfl⟩ : some b = o ∧ w₃ = w₂ := by simpa using he
    exact h w₁ hr hi c b w₃ hb hp

/-- A program that moves the world along `S` alone keeps what `S` and the others keep. -/
theorem keeps {S : W → W → Prop} {R : W → Prop} {p : Prog W C α} (hp : p.Keeps S) (hR : R w)
    (hrely : ∀ {w w'}, ρ.rely w w' → R w → R w')
    (hS : ∀ {w w'}, R w → S w w' → ρ.guar w w' ∧ R w') :
    Go ρ i p (fun _ w' => R w') w := by
  induction p generalizing w with
  | ret a => exact hR
  | act run next ih =>
      intro w₁ hr hi c b w₂ hrun _
      obtain ⟨hg, hR₂⟩ := hS (hrely hr hR) (hp.1 i c w₁ b w₂ hrun)
      exact ⟨hg, fun _ => ih b (hp.2 b) hR₂⟩

/-- A program carries along what the others keep and what its own actions keep, as far as they move
the world along `S`. -/
theorem carry {S : W → W → Prop} {R : W → Prop} {p : Prog W C α} {Q : α → W → Prop}
    (h : Go ρ i p Q w) (hp : p.Keeps S) (hR : R w) (hrely : ∀ {w w'}, ρ.rely w w' → R w → R w')
    (hguar : ∀ {w w'}, ρ.guar w w' → S w w' → R w → R w') :
    Go ρ i p (fun a w' => Q a w' ∧ R w') w := by
  induction p generalizing w with
  | ret a => exact ⟨h, hR⟩
  | act run next ih =>
      intro w₁ hr hi c b w₂ hrun hperm
      obtain ⟨hg, hn⟩ := h w₁ hr hi c b w₂ hrun hperm
      have hR₂ : R w₂ := hguar hg (hp.1 i c w₁ b w₂ hrun) (hrely hr hR)
      exact ⟨hg, fun hi₂ => ih b (hn hi₂) (hp.2 b) hR₂⟩

end Go

/-! ## Rules that fit together -/

/-- Whether a call is still under way. -/
def Task.live (t : Task W C K) : Prop := t.prog.ended = false

/-- A call under way was under way before the step, unless the step made it. -/
theorem System.step_live {S : System W C K E} {p q : Pool W C K} {e : Event C K E} {n : Nat}
    {t : Task W C K} (h : S.step p e = some q) (ht : q.tasks[n]? = some t) (hl : t.live) :
    (∃ t', p.tasks[n]? = some t' ∧ t'.call = t.call ∧ t'.live) ∨
      (e = .call t.call ∧ n = p.tasks.length ∧ S.admits t.call p = true) := by
  cases e with
  | call k =>
      obtain ⟨hadm, rfl⟩ := System.call_cases h
      rw [List.getElem?_append] at ht
      split at ht
      · exact .inl ⟨t, ht, rfl, hl⟩
      · rw [List.getElem?_singleton] at ht
        split at ht
        · obtain rfl := Option.some.inj ht
          exact .inr ⟨rfl, by omega, hadm⟩
        · cases ht
  | run i c =>
      obtain ⟨k, β, run, next, b, w, hi, -, rfl⟩ := System.runTask_cases h
      rw [List.getElem?_set] at ht
      split at ht
      · rename_i hin
        split at ht
        · obtain rfl := Option.some.inj ht
          exact .inl ⟨⟨k, .act run next⟩, by rw [← hin, hi], rfl, rfl⟩
        · cases ht
      · exact .inl ⟨t, ht, rfl, hl⟩
  | kill i =>
      obtain rfl : _ = q := by simpa [System.step] using h
      obtain ⟨t', ht', rfl⟩ := Option.map_eq_some_iff.mp (List.getElem?_modify .. ▸ ht)
      split at hl
      · cases hl
      · rename_i hin
        exact .inl ⟨t', ht', by rw [if_neg hin], hl⟩
  | env x =>
      obtain ⟨w, -, rfl⟩ := Option.map_eq_some_iff.mp h
      obtain ⟨t', ht', rfl⟩ := Option.map_eq_some_iff.mp (List.getElem?_map .. ▸ ht)
      split at hl
      · cases hl
      · rename_i hdies
        exact .inl ⟨t', ht', by rw [if_neg hdies], hl⟩

/-- A call under way stays under way, unless the step is its own, cuts it off or takes it down. -/
theorem System.step_ended {S : System W C K E} {p q : Pool W C K} {e : Event C K E} {n : Nat}
    {t : Task W C K} (h : S.step p e = some q) (ht : p.tasks[n]? = some t) (hl : t.live) :
    ∃ t', q.tasks[n]? = some t' ∧ t'.call = t.call ∧
      (t'.live ∨ (∃ c, e = .run n c) ∨ e = .kill n ∨ ∃ x, e = .env x ∧ S.dies x t.call = true) := by
  cases e with
  | call k =>
      obtain ⟨-, rfl⟩ := System.call_cases h
      exact ⟨t, by rw [List.getElem?_append_left (List.getElem?_eq_some_iff.mp ht).1, ht], rfl,
        .inl hl⟩
  | run i c =>
      obtain ⟨k, β, run, next, b, w, hi, -, rfl⟩ := System.runTask_cases h
      by_cases hin : i = n
      · subst hin
        obtain rfl := Option.some.inj (hi.symm.trans ht)
        exact ⟨⟨k, next b⟩, List.getElem?_set_self (List.getElem?_eq_some_iff.mp hi).1, rfl,
          .inr (.inl ⟨c, rfl⟩)⟩
      · exact ⟨t, by rw [List.getElem?_set_ne hin, ht], rfl, .inl hl⟩
  | kill i =>
      obtain rfl : _ = q := by simpa [System.step] using h
      by_cases hin : i = n
      · exact ⟨t.cut, by simp [hin, ht], rfl, .inr (.inr (.inl (congrArg _ hin)))⟩
      · exact ⟨t, by simp [hin, ht], rfl, .inl hl⟩
  | env x =>
      obtain ⟨w, -, rfl⟩ := Option.map_eq_some_iff.mp h
      by_cases hdies : S.dies x t.call = true
      · exact ⟨t.cut, by simp [ht, hdies], rfl, .inr (.inr (.inr ⟨x, rfl, hdies⟩))⟩
      · exact ⟨t, by simp [ht, hdies], rfl, .inl hl⟩

/-- A call under way may go on after interference. -/
theorem Go.of_live {ρ : Rules W} {i : Nat} {t : Task W C K} {Q : Unit → W → Prop} {w w' : W}
    (h : Go ρ i t.prog Q w) (hl : t.live)
    (htrans : ∀ {a b c}, ρ.rely a b → ρ.rely b c → ρ.rely a c) (hr : ρ.rely w w') :
    Go ρ i t.prog Q w' := by
  cases hp : t.prog with
  | ret a =>
      rw [Task.live, hp] at hl
      cases hl
  | act run next =>
      rw [hp] at h
      exact fun w₁ hr₁ => h w₁ (htrans hr hr₁)

/-- **Rules for every call of a system that fit together**, for the runs whose steps meet `A`. -/
structure Discipline (S : System W C K E)
    (A : Pool W C K → Event C K E → Pool W C K → Prop) where
  /-- What holds of the world at all times. -/
  inv : W → Prop
  /-- Which actions of call `i`, a `k`, the runs permit. -/
  permit : Nat → K → W → W → Prop
  /-- Which outside events the runs permit, as far as the world shows. -/
  envPermit : E → W → W → Prop
  /-- Which outside events the runs permit while a call is under way. -/
  envFits : E → K → W → W → Prop
  /-- Which calls may be under way together. -/
  compat : K → K → Prop
  /-- What the others may do while call `i`, a `k`, is under way. -/
  rely : Nat → K → W → W → Prop
  /-- What one action of call `i`, a `k`, may do. -/
  guar : Nat → K → W → W → Prop
  /-- What holds when call `i`, a `k`, has come to its end. -/
  done : Nat → K → W → Prop := fun _ _ _ => True
  permit_of : ∀ {p i c q t}, A p (.run i c) q → p.tasks[i]? = some t →
    permit i t.call p.world q.world
  envPermit_of : ∀ {p e q}, A p (.env e) q → envPermit e p.world q.world
  envFits_of : ∀ {p e q}, A p (.env e) q → ∀ t ∈ p.tasks, t.live →
    envFits e t.call p.world q.world
  compat_of : ∀ {p k q}, A p (.call k) q → S.admits k p = true →
    ∀ t ∈ p.tasks, t.live → compat k t.call ∧ compat t.call k
  rely_refl : ∀ i k w, rely i k w w
  rely_trans : ∀ i k {a b c}, rely i k a b → rely i k b c → rely i k a c
  guar_inv : ∀ {i k w w'}, inv w → permit i k w w' → guar i k w w' → inv w'
  env_inv : ∀ {e w w'}, inv w → envPermit e w w' → S.env e w = some w' → inv w'
  guar_rely : ∀ {i j k l w w'}, i ≠ j → compat k l → inv w → permit j l w w' →
    guar j l w w' → rely i k w w'
  env_rely : ∀ {i k e w w'}, inv w → envPermit e w w' → envFits e k w w' →
    S.env e w = some w' → S.dies e k = false → rely i k w w'
  code_go : ∀ {p k q}, A p (.call k) q → S.admits k p = true → inv p.world →
    Go ⟨inv, permit p.tasks.length k, rely p.tasks.length k, guar p.tasks.length k⟩ p.tasks.length
      (S.code k) (fun _ w => done p.tasks.length k w) p.world

namespace Discipline

variable {S : System W C K E} {A : Pool W C K → Event C K E → Pool W C K → Prop}
variable (D : Discipline S A)

/-- The rules of call `i`, a `k`. -/
def rules (i : Nat) (k : K) : Rules W := ⟨D.inv, D.permit i k, D.rely i k, D.guar i k⟩

/-- A pool in order: the invariant holds, every call under way may go on, and calls under way
together are compatible. -/
structure Ok (p : Pool W C K) : Prop where
  inv : D.inv p.world
  go : ∀ (i : Nat) (t : Task W C K), p.tasks[i]? = some t → t.live →
    Go (D.rules i t.call) i t.prog (fun _ w => D.done i t.call w) p.world
  compat : ∀ (i j : Nat) (t u : Task W C K), i ≠ j → p.tasks[i]? = some t →
    p.tasks[j]? = some u → t.live → u.live → D.compat t.call u.call

variable {D}
variable {p q : Pool W C K}

theorem Ok.step_call {k : K} (h : D.Ok p) (hA : A p (.call k) q)
    (hs : S.step p (.call k) = some q) : D.Ok q := by
  obtain ⟨hadm, rfl⟩ := System.call_cases hs
  have hcase : ∀ {n : Nat} {v : Task W C K}, (p.tasks ++ [⟨k, S.code k⟩])[n]? = some v →
      p.tasks[n]? = some v ∨ (n = p.tasks.length ∧ v = ⟨k, S.code k⟩) := by
    intro n v hn
    rw [List.getElem?_append] at hn
    split at hn
    · exact .inl hn
    · rw [List.getElem?_singleton] at hn
      split at hn
      · exact .inr ⟨by omega, by simpa using hn.symm⟩
      · cases hn
  refine ⟨h.inv, fun i t hi hl => ?_, fun i j t u hij hi hj ht hu => ?_⟩
  · rcases hcase hi with hi | ⟨rfl, rfl⟩
    · exact h.go i t hi hl
    · exact D.code_go hA hadm h.inv
  · rcases hcase hi with hi | ⟨hi, rfl⟩ <;> rcases hcase hj with hj | ⟨hj, rfl⟩
    · exact h.compat i j t u hij hi hj ht hu
    · exact (D.compat_of hA hadm t (List.mem_of_getElem? hi) ht).2
    · exact (D.compat_of hA hadm u (List.mem_of_getElem? hj) hu).1
    · omega

theorem Ok.step_run {i : Nat} {c : C} (h : D.Ok p) (hA : A p (.run i c) q)
    (hs : S.step p (.run i c) = some q) : D.Ok q ∧ ∃ t, p.tasks[i]? = some t ∧ t.live ∧
      D.permit i t.call p.world q.world ∧ D.guar i t.call p.world q.world := by
  obtain ⟨k, β, run, next, b, w, hi, hrun, rfl⟩ := System.runTask_cases hs
  have hperm : D.permit i k p.world w := D.permit_of hA hi
  have hlive : Task.live (⟨k, .act run next⟩ : Task W C K) := rfl
  obtain ⟨hguar, hnext⟩ :=
    h.go i _ hi hlive p.world (D.rely_refl i k p.world) h.inv c b w hrun hperm
  have hinv : D.inv w := D.guar_inv h.inv hperm hguar
  refine ⟨⟨hinv, fun j t hj hlt => ?_, fun j l t u hjl hj hl ht hu => ?_⟩,
    ⟨k, .act run next⟩, hi, hlive, hperm, hguar⟩
  · simp only [List.getElem?_set] at hj
    split at hj
    · rename_i hij
      split at hj
      · obtain rfl : (⟨k, next b⟩ : Task W C K) = t := by simpa using hj
        subst hij
        exact hnext hinv
      · cases hj
    · rename_i hij
      have hcompat : D.compat t.call k := h.compat j i t _ (Ne.symm hij) hj hi hlt hlive
      exact (h.go j t hj hlt).of_live hlt (D.rely_trans j t.call)
        (D.guar_rely (Ne.symm hij) hcompat h.inv hperm hguar)
  · have hcase : ∀ {n : Nat} {v : Task W C K}, (p.tasks.set i ⟨k, next b⟩)[n]? = some v →
        v.live → ∃ v' : Task W C K, p.tasks[n]? = some v' ∧ v'.call = v.call ∧ v'.live := by
      intro n v hn hv
      simp only [List.getElem?_set] at hn
      split at hn
      · rename_i hin
        split at hn
        · obtain rfl : (⟨k, next b⟩ : Task W C K) = v := by simpa using hn
          subst hin
          exact ⟨_, hi, rfl, hlive⟩
        · cases hn
      · exact ⟨v, hn, rfl, hv⟩
    obtain ⟨t', ht', hct, hlt⟩ := hcase hj ht
    obtain ⟨u', hu', hcu, hlu⟩ := hcase hl hu
    rw [← hct, ← hcu]
    exact h.compat j l t' u' hjl ht' hu' hlt hlu

/-- A call that comes to its end by itself ends as its rules say. -/
theorem Ok.step_done {i : Nat} {c : C} {t : Task W C K} (h : D.Ok p) (hA : A p (.run i c) q)
    (hs : S.step p (.run i c) = some q) (ht : q.tasks[i]? = some t) (hl : ¬ t.live) :
    D.done i t.call q.world := by
  have hinv := (h.step_run hA hs).1.inv
  obtain ⟨k, β, run, next, b, w, hi, hrun, rfl⟩ := System.runTask_cases hs
  obtain ⟨-, hnext⟩ := h.go i _ hi rfl p.world (D.rely_refl i k p.world) h.inv c b w hrun
    (D.permit_of hA hi)
  obtain ⟨hlt, -⟩ := List.getElem?_eq_some_iff.mp hi
  rw [List.getElem?_set_self hlt] at ht
  obtain rfl := Option.some.inj ht
  have hgo := hnext hinv
  dsimp only at hgo hl ⊢
  cases hp : next b with
  | ret a =>
      rw [hp] at hgo
      exact hgo
  | act run' next' =>
      rw [hp] at hl
      exact absurd rfl hl

theorem Ok.step_kill {i : Nat} (h : D.Ok p) (hs : S.step p (.kill i) = some q) :
    D.Ok q ∧ q.world = p.world := by
  obtain rfl : _ = q := by simpa [System.step] using hs
  have hcase : ∀ {n : Nat} {v : Task W C K}, (p.tasks.modify i Task.cut)[n]? = some v →
      ∃ v' : Task W C K, p.tasks[n]? = some v' ∧ (v = v' ∨ v = v'.cut) := by
    intro n v hn
    rw [List.getElem?_modify] at hn
    obtain ⟨v', hv', rfl⟩ := Option.map_eq_some_iff.mp hn
    exact ⟨v', hv', by split <;> simp⟩
  refine ⟨⟨h.inv, fun n t hn hl => ?_, fun n m t u hnm hn hm ht hu => ?_⟩, rfl⟩
  · obtain ⟨t', ht', rfl | rfl⟩ := hcase hn
    · exact h.go n _ ht' hl
    · cases hl
  · obtain ⟨t', ht', rfl | rfl⟩ := hcase hn
    · obtain ⟨u', hu', rfl | rfl⟩ := hcase hm
      · exact h.compat n m _ _ hnm ht' hu' ht hu
      · cases hu
    · cases ht

theorem Ok.step_env {e : E} (h : D.Ok p) (hA : A p (.env e) q)
    (hs : S.step p (.env e) = some q) :
    D.Ok q ∧ D.envPermit e p.world q.world ∧ S.env e p.world = some q.world := by
  obtain ⟨w, hw, rfl⟩ := Option.map_eq_some_iff.mp hs
  have hperm : D.envPermit e p.world w := D.envPermit_of hA
  have hcase : ∀ {n : Nat} {v : Task W C K},
      (p.tasks.map fun t => if S.dies e t.call then t.cut else t)[n]? = some v →
      ∃ v' : Task W C K, p.tasks[n]? = some v' ∧
        ((S.dies e v'.call = false ∧ v = v') ∨ v = v'.cut) := by
    intro n v hn
    rw [List.getElem?_map] at hn
    obtain ⟨v', hv', rfl⟩ := Option.map_eq_some_iff.mp hn
    refine ⟨v', hv', ?_⟩
    by_cases hd : S.dies e v'.call
    · simp [hd]
    · simp only [Bool.not_eq_true] at hd
      simp [hd]
  refine ⟨⟨D.env_inv h.inv hperm hw, fun n t hn hl => ?_, fun n m t u hnm hn hm ht hu => ?_⟩,
    hperm, hw⟩
  · obtain ⟨t', ht', ⟨hd, rfl⟩ | rfl⟩ := hcase hn
    · have hfits : D.envFits e t.call p.world w := D.envFits_of hA t (List.mem_of_getElem? ht') hl
      exact (h.go n _ ht' hl).of_live hl (D.rely_trans n t.call)
        (D.env_rely h.inv hperm hfits hw hd)
    · cases hl
  · obtain ⟨t', ht', ⟨-, rfl⟩ | rfl⟩ := hcase hn
    · obtain ⟨u', hu', ⟨-, rfl⟩ | rfl⟩ := hcase hm
      · exact h.compat n m _ _ hnm ht' hu' ht hu
      · cases hu
    · cases ht

/-- **What one permitted step does** from a pool in order: the pool stays in order, and the step is
a guaranteed action of one live call, an outside event, or leaves the world alone. -/
theorem Ok.step {e : Event C K E} (h : D.Ok p) (hs : S.step p e = some q) (hA : A p e q) :
    D.Ok q ∧ ((∃ i c t, e = .run i c ∧ p.tasks[i]? = some t ∧ t.live ∧
        D.permit i t.call p.world q.world ∧ D.guar i t.call p.world q.world) ∨
      (∃ x, e = .env x ∧ D.envPermit x p.world q.world ∧ S.env x p.world = some q.world) ∨
      q.world = p.world) := by
  cases e with
  | call k =>
      refine ⟨h.step_call hA hs, .inr (.inr ?_)⟩
      obtain ⟨-, rfl⟩ := System.call_cases hs
      rfl
  | run i c =>
      obtain ⟨hok, t, ht, hl, hp, hg⟩ := h.step_run hA hs
      exact ⟨hok, .inl ⟨i, c, t, rfl, ht, hl, hp, hg⟩⟩
  | kill i =>
      obtain ⟨hok, hw⟩ := h.step_kill hs
      exact ⟨hok, .inr (.inr hw)⟩
  | env x =>
      obtain ⟨hok, hp, hw⟩ := h.step_env hA hs
      exact ⟨hok, .inr (.inl ⟨x, rfl, hp, hw⟩)⟩

/-- **Along every permitted run the pool stays in order.** -/
theorem Ok.run (h : D.Ok p) (hr : S.Run A p q) : D.Ok q :=
  hr.invariant h fun _ _ _ hs hA hok => (hok.step hs hA).1

/-- **A property of the world that every step keeps**: the guaranteed actions of live calls and
the outside events keep it, so it holds all along a permitted run. -/
theorem Ok.run_invariant {J : W → Prop} (h : D.Ok p) (hr : S.Run A p q) (h₀ : J p.world)
    (hguar : ∀ i k w w', D.inv w → D.permit i k w w' → D.guar i k w w' → J w → J w')
    (henv : ∀ e w w', D.inv w → D.envPermit e w w' → S.env e w = some w' → J w → J w') :
    J q.world := by
  refine (hr.invariant (I := fun r => D.Ok r ∧ J r.world) ⟨h, h₀⟩
    fun p e q hs hA ⟨hok, hJ⟩ => ?_).2
  obtain ⟨hok', ⟨i, _, t, -, -, -, hp, hg⟩ | ⟨x, -, hp, hw⟩ | hw⟩ := hok.step hs hA
  · exact ⟨hok', hguar i t.call _ _ hok.inv hp hg hJ⟩
  · exact ⟨hok', henv x _ _ hok.inv hp hw hJ⟩
  · exact ⟨hok', hw ▸ hJ⟩

/-- A pool in which no call was started yet is in order as soon as the invariant holds. -/
theorem ok_of_no_tasks {w : W} (h : D.inv w) : D.Ok ⟨w, []⟩ :=
  ⟨h, fun i t hi _ => by simp at hi, fun i j t u _ hi => by simp at hi⟩

end Discipline

end YantraRgs.Await
