import YantraRgs.Await.Watch
import YantraRgs.Conduct.PlaceBet

/-! # Placing a bet under rules of its own

A call that places a bet may be looked at under rules other than those of the server. Where idle actions
are no matter to them, what is left to be said is how the limits are checked and how the bet is created.

* **`Tolerant`** — rules to which idle actions do not matter; **`Tolerant.idle`**.
* **`placeBet_go_of`** — placing a bet comes down to checking its limits.
* **`takeStake_go_of`** — taking a stake comes down to creating the bet. -/

namespace YantraRgs

open Await

/-- Rules to which idle actions do not matter: every call may be idle, and let the others be. -/
structure Tolerant (ρ : Rules World) : Prop where
  guar : ∀ {w w'}, Same w w' → ρ.guar w w'
  rely : ∀ {w w'}, Same w w' → ρ.rely w w'

variable {ρ : Rules World} {env : Env} {i : Nat} {e : EngineRef} {p : PlaceBetParams} {w : World}
  {α β : Type}

/-- An idle program keeps what the others keep. -/
theorem Tolerant.idle (hρ : Tolerant ρ) {R : World → Prop} {x : Action α} (hx : Idle x) (hR : R w)
    (hstable : ∀ {w w'}, ρ.rely w w' → R w → R w') : Go ρ i x (fun _ w' => R w') w :=
  Go.keeps hx hR hstable fun hR hs => ⟨hρ.guar hs, hstable (hρ.rely hs) hR⟩

/-- An idle program, followed by one that may go on wherever the stable fact holds. -/
theorem Tolerant.idle_bind (hρ : Tolerant ρ) {R : World → Prop} {x : Action α} {f : α → Action β}
    {Q : β → World → Prop} (hx : Idle x) (hR : R w) (hstable : ∀ {w w'}, ρ.rely w w' → R w → R w')
    (h : ∀ a w, R w → Go ρ i (f a) Q w) : Go ρ i (x >>= f) Q w :=
  Go.bind_iff.mpr ((hρ.idle hx hR hstable).mono fun a w' hw => h a w' hw)

/-- An idle program may always go on. -/
theorem Tolerant.of_idle (hρ : Tolerant ρ) {x : Action α} (hx : Idle x) :
    Go ρ i x (fun _ _ => True) w :=
  hρ.idle (R := fun _ => True) hx trivial fun _ _ => trivial

/-- **A call that has created its bet may go on with anything**, where the rules ask no more of it: it
creates no other. -/
theorem go_of_created {x : Action α} (hrely : ∀ {w w'}, ρ.rely w w' → Later w w')
    (hpermit : ∀ {w w'}, ρ.permit w w' → Later w w')
    (hguar : ∀ {w w'}, ¬ NoBetYet i w → ρ.guar w w') (h : ¬ NoBetYet i w) :
    Go ρ i x (fun _ _ => True) w := by
  have hlater : ∀ {w w' : World}, Later w w' → ¬ NoBetYet i w → ¬ NoBetYet i w' := by
    intro w w' hl h h'
    refine h fun b hb ho => ?_
    obtain ⟨b', hb', hbl⟩ := hl.mem_bets hb
    exact h' b' hb' (hbl.betTransactionUuid ▸ ho)
  exact (Go.of_permit (R := fun w => ¬ NoBetYet i w) h (fun hr => hlater (hrely hr)) fun h hp =>
    ⟨hguar h, hlater (hpermit hp) h⟩).mono fun _ _ _ => trivial

/-- **Taking a stake**: the bet is created under a transaction of the call's own, where what was known
of the world still holds, and then the call may go on with anything. -/
theorem takeStake_go_of (hρ : Tolerant ρ) {R : World → Prop} {round : ActiveRound}
    (hrely : ∀ {w w'}, ρ.rely w w' → Later w w') (hpermit : ∀ {w w'}, ρ.permit w w' → Later w w')
    (hguar : ∀ {w w'}, ¬ NoBetYet i w → ρ.guar w w') (hstable : ∀ {w w'}, ρ.rely w w' → R w → R w')
    (hcreate : ∀ {w : World} {txUuid : Uuid} {commissionMicro : Int}, txUuid.owner = i → R w → ρ.inv w →
      ρ.permit w (w.addBet (GameEngine.newBet e p round.id commissionMicro txUuid w.now)) →
        ρ.guar w (w.addBet (GameEngine.newBet e p round.id commissionMicro txUuid w.now)))
    (hR : R w) : Go ρ i (GameEngine.takeStake env e p round) (fun _ _ => True) w := by
  have hdrawn : Go ρ i (Action.newUuid .stake) (fun txUuid w' => txUuid.owner = i ∧ R w') w := by
    refine Go.request fun w₁ hr _ _ => ?_
    have hsame : Same w₁ { w₁ with serial := w₁.serial + 1 } :=
      { Same.refl w₁ with serial := Nat.le_succ _ }
    exact ⟨hρ.guar hsame, fun _ => ⟨rfl, hstable (hρ.rely hsame) (hstable hr hR)⟩⟩
  refine Go.bind_iff.mpr (hdrawn.mono fun txUuid w h => ?_)
  obtain ⟨howner, hR⟩ := h
  refine hρ.idle_bind (Idle.newUuid _) hR hstable fun requestUuid w hR => ?_
  refine Go.bind_iff.mpr (Go.mono (Q := fun _ w' => ¬ NoBetYet i w')
    (Go.request fun w₁ hr hinv hperm => ⟨hcreate howner (hstable hr hR) hinv hperm, fun _ hi => ?_⟩)
      fun _ w h => go_of_created hrely hpermit hguar h)
  exact hi _ (List.mem_append_right _ (List.mem_singleton_self _)) howner

/-- **Placing a bet**: what is known of the open round and of the session is kept until the limits are
checked; every refusal before that is idle. -/
theorem placeBet_go_of (hρ : Tolerant ρ) (Open : ActiveRound → World → Prop)
    (Found : ActiveRound → GameSession → World → Prop)
    (hopen : ∀ {w₁ engine round}, ρ.rely w w₁ → w₁.engine? e = some engine →
      engine.active = some round → Open round w₁)
    (hopens : ∀ {round w w'}, ρ.rely w w' → Open round w → Open round w')
    (hfound : ∀ {round session w}, Open round w → w.sessions[p.sessionId]? = some session →
      Found round session w)
    (hfounds : ∀ {round session w w'}, ρ.rely w w' → Found round session w → Found round session w')
    (hlimits : ∀ {round session w}, Found round session w →
      Go ρ i (GameEngine.checkLimits env e p round session) (fun _ _ => True) w) :
    Go ρ i (GameEngine.placeBet env e p) (fun _ _ => True) w := by
  have hrefuse : ∀ {w : World} (reason : String) (remaining : Option Int) (a : Answer),
      Go ρ i (do
        GameEngine.rejectBet p.sessionId reason remaining
        pure a : Action Answer) (fun _ _ => True) w := fun reason remaining a =>
    hρ.of_idle (Prog.Keeps.bind (Idle.rejectBet _ _ _) fun _ => trivial)
  have hengine : Go ρ i (Action.engine e) (fun engine w' =>
      ∀ round, engine.bind Engine.active = some round → Open round w') w := by
    refine Go.query (fun w => hρ.guar (.refl w)) fun w₁ hr _ round hround => ?_
    obtain ⟨engine, hengine, hactive⟩ := Option.bind_eq_some_iff.mp hround
    exact hopen hr hengine hactive
  refine Go.bind_iff.mpr (hengine.mono fun engine w hopened => ?_)
  split
  · rename_i engine round hround
    have hopened := hopened round hround
    split
    · trivial
    split
    · trivial
    split
    · exact hrefuse _ _ _
    have hfind : Go ρ i (Action.findUnique World.sessions p.sessionId)
        (fun session w' => ∀ s, session = some s → Found round s w') w :=
      Go.query (fun w => hρ.guar (.refl w)) fun w₁ hr _ s hs => hfound (hopens hr hopened) hs
    refine Go.bind_iff.mpr (hfind.mono fun session w hread => ?_)
    cases session with
    | none => exact hrefuse _ _ _
    | some session =>
        refine hρ.idle_bind Idle.now (hread session rfl) hfounds fun now w h => ?_
        split
        · exact hrefuse _ _ _
        split
        · exact hrefuse _ _ _
        exact hlimits h
  · trivial

end YantraRgs
