import YantraRgs.Await.RelyGuarantee

/-! # Watching calls of one kind

Beside the rules that every call of a system keeps to, the calls of one kind may keep to rules of their
own, as long as the steps of a run leave them room to.

* **`Prog.Returns`** — what holds of every value that a program ends with.
* **`Go.of_permit`** — a program may go on when what it is permitted to do is all that is asked of it.
* **`Attended`**, **`Watched`** — the calls of a kind that are under way may go on under their rules;
  **`Attended.guar`** — what one of them does, **`Attended.step`** — a step keeps them attended. -/

namespace YantraRgs.Await

variable {W C K E : Type} {α β : Type}

/-! ## Values and permitted actions -/

/-- Every value that a program ends with meets `φ`. -/
def Prog.Returns (φ : α → Prop) : Prog W C α → Prop
  | .ret a => φ a
  | .act _ next => ∀ b, (next b).Returns φ

theorem Prog.Returns.bind {φ : α → Prop} {ψ : β → Prop} {p : Prog W C α} {f : α → Prog W C β}
    (hp : p.Returns φ) (hf : ∀ a, φ a → (f a).Returns ψ) : (p >>= f).Returns ψ := by
  induction p with
  | ret a => exact hf a hp
  | act run next ih => exact fun b => ih b (hp b)

/-- A sequence ends with what its last part ends with. -/
theorem Prog.Returns.then {ψ : β → Prop} {p : Prog W C α} {f : α → Prog W C β}
    (hf : ∀ a, (f a).Returns ψ) : (p >>= f).Returns ψ := by
  induction p with
  | ret a => exact hf a
  | act run next ih => exact fun b => ih b

theorem Prog.Returns.of_forall {φ : α → Prop} (h : ∀ a, φ a) (p : Prog W C α) : p.Returns φ := by
  induction p with
  | ret a => exact h a
  | act run next ih => exact ih

/-- A program ends with a value that it can end with. -/
theorem Go.returns {ρ : Rules W} {i : Nat} {w : W} {φ : α → Prop} {p : Prog W C α}
    {Q : α → W → Prop} (h : Go ρ i p Q w) (hp : p.Returns φ) :
    Go ρ i p (fun a w' => φ a ∧ Q a w') w := by
  induction p generalizing w with
  | ret a => exact ⟨hp, h⟩
  | act run next ih =>
      intro w₁ hr hi c b w₂ hrun hperm
      obtain ⟨hg, hn⟩ := h w₁ hr hi c b w₂ hrun hperm
      exact ⟨hg, fun hi₂ => ih b (hn hi₂) (hp b)⟩

/-- **Any program may go on** where a fact holds under which every permitted action keeps to the
guarantee, as long as neither the others nor the permitted actions take it away. -/
theorem Go.of_permit {ρ : Rules W} {i : Nat} {w : W} {R : W → Prop} {p : Prog W C α} (hR : R w)
    (hrely : ∀ {w w'}, ρ.rely w w' → R w → R w')
    (hpermit : ∀ {w w'}, R w → ρ.permit w w' → ρ.guar w w' ∧ R w') :
    Go ρ i p (fun _ w' => R w') w := by
  induction p generalizing w with
  | ret a => exact hR
  | act run next ih =>
      intro w₁ hr _ c b w₂ _ hp
      obtain ⟨hg, hR₂⟩ := hpermit (hrely hr hR) hp
      exact ⟨hg, fun _ => ih b hR₂⟩

/-! ## The calls of one kind -/

/-- **The calls under way of a kind may go on** under their rules. What is of the kind may depend on what
is left of a call. -/
def Attended (rules : Nat → K → Rules W) (kind : Task W C K → Prop) (p : Pool W C K) : Prop :=
  ∀ (i : Nat) (t : Task W C K), p.tasks[i]? = some t → t.live → kind t →
    Go (rules i t.call) i t.prog (fun _ _ => True) p.world

/-- **The calls of a kind that are under way may go on** under their rules. -/
def Watched (rules : Nat → K → Rules W) (kind : K → Prop) (p : Pool W C K) : Prop :=
  ∀ (i : Nat) (t : Task W C K), p.tasks[i]? = some t → t.live → kind t.call →
    Go (rules i t.call) i t.prog (fun _ _ => True) p.world

variable {S : System W C K E} {rules : Nat → K → Rules W} {p q : Pool W C K} {e : Event C K E}

/-- **What an attended call does** is within its guarantee. -/
theorem Attended.guar {kind : Task W C K → Prop} (h : Attended rules kind p) {i : Nat} {c : C}
    {t : Task W C K} (hs : S.step p (.run i c) = some q) (ht : p.tasks[i]? = some t) (hk : kind t)
    (hrefl : (rules i t.call).rely p.world p.world) (hinv : (rules i t.call).inv p.world)
    (hpermit : (rules i t.call).permit p.world q.world) : (rules i t.call).guar p.world q.world := by
  obtain ⟨k, β, run, next, b, w, hi, hrun, rfl⟩ := System.runTask_cases hs
  obtain rfl := Option.some.inj (hi.symm.trans ht)
  exact (h i _ hi rfl hk p.world hrefl hinv c b w hrun hpermit).1

/-- **A step keeps the calls of a kind attended**: the others leave them room, what they do is permitted,
a new one may go on, and what is left of a call is of the kind only if the call was. -/
theorem Attended.step {kind : Task W C K → Prop} (h : Attended rules kind p)
    (hs : S.step p e = some q)
    (hkind : ∀ {k : K} {β : Type} {run : Nat → C → W → Option (β × W)} {next : β → Prog W C Unit}
      {b : β}, kind ⟨k, next b⟩ → kind ⟨k, .act run next⟩)
    (hrefl : ∀ i t w, kind t → (rules i t.call).rely w w)
    (htrans : ∀ i t {a b c}, kind t → (rules i t.call).rely a b → (rules i t.call).rely b c →
      (rules i t.call).rely a c)
    (hinv : ∀ i t, kind t → (rules i t.call).inv p.world ∧ (rules i t.call).inv q.world)
    (hother : ∀ i t, p.tasks[i]? = some t → t.live → kind t → (∀ c, e ≠ .run i c) →
      (rules i t.call).rely p.world q.world)
    (hown : ∀ i c t, e = .run i c → p.tasks[i]? = some t → kind t →
      (rules i t.call).permit p.world q.world)
    (hnew : ∀ k, e = .call k → kind ⟨k, S.code k⟩ → Go (rules p.tasks.length k) p.tasks.length
      (S.code k) (fun _ _ => True) p.world) : Attended rules kind q := by
  intro i t ht hl hk
  cases e with
  | call k =>
      obtain ⟨-, rfl⟩ := System.call_cases hs
      rw [List.getElem?_append] at ht
      split at ht
      · exact h i t ht hl hk
      · rw [List.getElem?_singleton] at ht
        split at ht
        · obtain rfl := Option.some.inj ht
          obtain rfl : i = p.tasks.length := by omega
          exact hnew k rfl hk
        · cases ht
  | run j c =>
      have hother' := hother i
      obtain ⟨k, β, run, next, b, w, hj, hrun, rfl⟩ := System.runTask_cases hs
      rw [List.getElem?_set] at ht
      split at ht
      · rename_i hij
        subst hij
        split at ht
        · obtain rfl := Option.some.inj ht
          have hk' : kind ⟨k, .act run next⟩ := hkind hk
          exact (h j _ hj rfl hk' p.world (hrefl _ _ _ hk') (hinv _ _ hk').1 c b w hrun
            (hown j c _ rfl hj hk')).2 (hinv j _ hk').2
        · cases ht
      · rename_i hij
        refine (h i t ht hl hk).of_live hl (htrans i t hk) (hother' t ht hl hk fun c' hc' => ?_)
        exact hij (Event.run.inj hc').1
  | kill j =>
      have hother' := hother i
      obtain rfl : _ = q := by simpa [System.step] using hs
      obtain ⟨t', ht', rfl⟩ := Option.map_eq_some_iff.mp (List.getElem?_modify .. ▸ ht)
      split at hl
      · cases hl
      · rename_i hij
        rw [if_neg hij] at hk ⊢
        exact (h i t' ht' hl hk).of_live hl (htrans i t' hk)
          (hother' t' ht' hl hk fun c' hc' => by cases hc')
  | env x =>
      have hother' := hother i
      obtain ⟨w, -, rfl⟩ := Option.map_eq_some_iff.mp hs
      obtain ⟨t', ht', rfl⟩ := Option.map_eq_some_iff.mp (List.getElem?_map .. ▸ ht)
      split at hl
      · cases hl
      · rename_i hdies
        rw [if_neg hdies] at hk ⊢
        exact (h i t' ht' hl hk).of_live hl (htrans i t' hk)
          (hother' t' ht' hl hk fun c' hc' => by cases hc')

variable {kind : K → Prop}

/-- **What a watched call does** is within its guarantee. -/
theorem Watched.guar (h : Watched rules kind p) {i : Nat} {c : C} {t : Task W C K}
    (hs : S.step p (.run i c) = some q) (ht : p.tasks[i]? = some t) (hk : kind t.call)
    (hrefl : (rules i t.call).rely p.world p.world) (hinv : (rules i t.call).inv p.world)
    (hpermit : (rules i t.call).permit p.world q.world) : (rules i t.call).guar p.world q.world := by
  have hattended : Attended rules (fun t => kind t.call) p := h
  exact hattended.guar hs ht hk hrefl hinv hpermit

/-- **A step keeps the calls of a kind watched**: the others leave them room, what they do is permitted,
and a new one may go on. -/
theorem Watched.step (h : Watched rules kind p) (hs : S.step p e = some q)
    (hrefl : ∀ i k w, kind k → (rules i k).rely w w)
    (htrans : ∀ i k {a b c}, kind k → (rules i k).rely a b → (rules i k).rely b c →
      (rules i k).rely a c)
    (hinv : ∀ i k, kind k → (rules i k).inv p.world ∧ (rules i k).inv q.world)
    (hother : ∀ i t, p.tasks[i]? = some t → t.live → kind t.call → (∀ c, e ≠ .run i c) →
      (rules i t.call).rely p.world q.world)
    (hown : ∀ i c t, e = .run i c → p.tasks[i]? = some t → kind t.call →
      (rules i t.call).permit p.world q.world)
    (hnew : ∀ k, e = .call k → kind k → Go (rules p.tasks.length k) p.tasks.length (S.code k)
      (fun _ _ => True) p.world) : Watched rules kind q := by
  have hattended : Attended rules (fun t => kind t.call) p := h
  exact hattended.step hs (fun hk => hk) (fun i t => hrefl i t.call) (fun i t => htrans i t.call)
    (fun i t => hinv i t.call) hother hown hnew

end YantraRgs.Await
