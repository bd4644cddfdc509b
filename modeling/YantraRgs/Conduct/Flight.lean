import YantraRgs.Conduct.Pace
import YantraRgs.Conduct.Running
import YantraRgs.Conduct.Still

/-! # Rounds in flight

A round of a live game is in flight while the engine that runs it shows it as rolling. The memory of an
engine changes in the turns of its own loop alone, and there is one call at a time that drives it.

* **`World.memory`** — the round objects of an engine; **`ActiveRound.airborne`** — one in flight.
* **`Move.memory_eq`**, **`outside_memory`** — who changes them.
* **`Driven`** — the calls that drive engines; **`Driven.memory`** — what they rely on.
* **`Harmless`**, **`Paying`** — programs that leave the flights, the losses and the outcomes alone. -/

namespace YantraRgs

open Await

variable {P : Policy} {env : Env} {i : Nat} {k : Call} {w w' w'' : World} {e : EngineRef} {α : Type}

/-- **Whether a round object is in flight**: it is rolling, and the time of its crash has not come. -/
def ActiveRound.airborne (a : ActiveRound) (now : Millis) : Bool :=
  a.phase = .rolling ∧ a.crashAtMs.any fun crashAtMs => now < a.phaseStartedAt + crashAtMs

/-- The round objects in the memory of an engine. -/
def World.memory (w : World) (e : EngineRef) : List ActiveRound :=
  ((w.engine? e).map Engine.actives).getD []

theorem World.active?_eq (w : World) (e : EngineRef) : w.active? e = (w.memory e).getLast? := by
  rw [World.active?, World.memory]
  cases w.engine? e <;> rfl

/-! ## Who changes the memory of an engine -/

theorem memory_of_actives (h : w'.engines.map Engine.actives = w.engines.map Engine.actives)
    (e : EngineRef) : w'.memory e = w.memory e := by
  simp only [World.memory, World.engine?, ← List.getElem?_map, h]

theorem Same.memory (h : Same w w') (e : EngineRef) : w'.memory e = w.memory e :=
  memory_of_actives h.actives e

/-- A change of another engine, or one that leaves the round objects alone. -/
theorem memory_updateEngine {e' : EngineRef} {f : Engine → Engine}
    (hf : e'.index = e.index → ∀ engine, (f engine).actives = engine.actives) :
    (w.updateEngine e' f).memory e = w.memory e := by
  simp only [World.memory, engine?_updateEngine]
  cases w.engine? e with
  | none => rfl
  | some engine =>
      by_cases hidx : e'.index = e.index
      · simp [hidx, hf hidx]
      · simp [hidx]

/-- The active round is changed, and no other one. -/
theorem memory_updateActive {f : ActiveRound → ActiveRound} :
    (w.updateEngine e (Engine.updateActive f)).memory e =
      (w.memory e).modify ((w.memory e).length - 1) f := by
  simp only [World.memory, engine?_updateEngine]
  cases w.engine? e <;> simp [Engine.updateActive]

theorem active?_updateActive {f : ActiveRound → ActiveRound} :
    (w.updateEngine e (Engine.updateActive f)).active? e = (w.active? e).map f := by
  rw [World.active?_eq, World.active?_eq, memory_updateActive, List.getLast?_eq_getElem?,
    List.getLast?_eq_getElem?, List.length_modify, List.getElem?_modify_eq]
  rfl

/-- A round object after the change is one from before, or the active one, changed. -/
theorem updateActive_cases {f : ActiveRound → ActiveRound} {n : Nat} {a' : ActiveRound}
    (h : ((w.updateEngine e (Engine.updateActive f)).memory e)[n]? = some a') :
    (w.memory e)[n]? = some a' ∨
      ∃ a, w.active? e = some a ∧ (w.memory e)[n]? = some a ∧ a' = f a := by
  rw [memory_updateActive, List.getElem?_modify] at h
  obtain ⟨a, ha, rfl⟩ := Option.map_eq_some_iff.mp h
  split
  · rename_i hn
    subst hn
    exact .inr ⟨a, by rw [World.active?_eq, List.getLast?_eq_getElem?, ha], ha, rfl⟩
  · exact .inl ha

/-- A round object stays as it is, unless it is the active one. -/
theorem updateActive_kept {f : ActiveRound → ActiveRound} {n : Nat} {a : ActiveRound}
    (h : (w.memory e)[n]? = some a) :
    ((w.updateEngine e (Engine.updateActive f)).memory e)[n]? = some a ∨ w.active? e = some a := by
  rw [memory_updateActive, List.getElem?_modify, h]
  by_cases hn : (w.memory e).length - 1 = n
  · refine .inr ?_
    rw [World.active?_eq, List.getLast?_eq_getElem?, hn, h]
  · exact .inl (by simp [hn])

/-- The round objects of an engine change in the turns of its own loop alone. -/
theorem Move.memory_eq (h : Move P i k w w')
    (hk : ∀ e' polls, k = .iteration e' polls → w.Keyed e' → e'.index ≠ e.index) :
    w'.memory e = w.memory e := by
  cases h with
  | idle h => exact h.memory e
  | phase e' polls he hkeyed f hf =>
      exact memory_updateEngine fun hidx => absurd hidx (hk e' polls he hkeyed)
  | activate e' polls he active hkeyed hr =>
      exact memory_updateEngine fun hidx => absurd hidx (hk e' polls he hkeyed)
  | begin e' he hkeyed h => exact memory_updateEngine fun _ _ => rfl
  | _ => rfl

/-- Nothing from outside changes the round objects of an engine. -/
theorem outside_memory {x : Outside} (h : w.outside x = some w') (e : EngineRef) :
    w'.memory e = w.memory e := by
  cases x with
  | deliver sent v message =>
      simp only [World.outside, World.deliver] at h
      split at h
      · obtain ⟨s, -, h⟩ := Option.bind_eq_some_iff.mp h
        obtain ⟨book, -, rfl⟩ := Option.map_eq_some_iff.mp h
        rfl
      · cases h
  | boot key cfg gameConfig =>
      obtain rfl : _ = w' := by simpa [World.outside] using h
      -- an engine that was just made has none
      by_cases hlt : e.index < w.engines.length
      · simp [World.memory, World.engine?, List.getElem?_append_left hlt]
      · rw [Nat.not_lt] at hlt
        simp only [World.memory, World.engine?, List.getElem?_append_right hlt,
          List.getElem?_eq_none hlt, List.getElem?_singleton]
        split <;> rfl
  | stop e' =>
      obtain rfl : _ = w' := by simpa [World.outside] using h
      exact memory_updateEngine fun _ _ => rfl
  | die e' =>
      obtain rfl : _ = w' := by simpa [World.outside] using h
      exact memory_updateEngine fun _ _ => rfl
  | configure e' cfg gameConfig =>
      obtain rfl : _ = w' := by simpa [World.outside] using h
      exact memory_updateEngine fun _ _ => rfl
  | elapse | drop | patch =>
      obtain rfl : _ = w' := by simpa [World.outside] using h
      rfl

/-! ## The calls that drive engines -/

/-- Two references to one engine are the same. -/
theorem World.Keyed.eq_of (h : w.Keyed e) {e' : EngineRef} (h' : w.Keyed e')
    (hidx : e.index = e'.index) : e = e' :=
  EngineRef.eq_of (h.unique h' hidx) hidx

/-- **The calls that drive engines**: their engines are there, and no two of them drive one engine. -/
structure Driven (p : State) : Prop where
  keyed : ∀ {i : Nat} {t : Task World Choice Call} {e : EngineRef}, p.tasks[i]? = some t → t.live →
    t.call.drives = some e → p.world.Keyed e
  sole : ∀ {i j : Nat} {t u : Task World Choice Call} {e : EngineRef}, p.tasks[i]? = some t →
    p.tasks[j]? = some u → t.live → u.live → t.call.drives = some e → u.call.drives = some e → i = j

section Driven

variable {p q : State} {x : Happening}

theorem Driven.initial (operators : List OperatorRow) (credentials : List OperatorCredential)
    (gameConfigs : List OperatorGameConfig) :
    Driven (State.initial operators credentials gameConfigs) :=
  ⟨fun h => (nomatch h), fun h => (nomatch h)⟩

/-- A step keeps the calls that drive engines apart. -/
theorem Driven.step (h : Driven p) (hs : (server env).step p x = some q)
    (hlater : Later p.world q.world) : Driven q := by
  constructor
  · intro i t e ht hl hd
    rcases System.step_live hs ht hl with ⟨t', ht', hcall, hl'⟩ | ⟨-, -, hadm⟩
    · exact hlater.keyed (h.keyed ht' hl' (hcall ▸ hd))
    · exact hlater.keyed (Call.admitted.alone hadm hd).1
  · intro i j t u e ht hu hlt hlu hdt hdu
    rcases System.step_live hs ht hlt with ⟨t', ht', hct, hlt'⟩ | ⟨-, hi, hadm⟩ <;>
      rcases System.step_live hs hu hlu with ⟨u', hu', hcu, hlu'⟩ | ⟨-, hj, hadm'⟩
    · exact h.sole ht' hu' hlt' hlu' (hct ▸ hdt) (hcu ▸ hdu)
    · exact absurd (hct ▸ hdt)
        ((Call.admitted.alone hadm' hdu).2 t' (List.mem_of_getElem? ht') hlt')
    · exact absurd (hcu ▸ hdu)
        ((Call.admitted.alone hadm hdt).2 u' (List.mem_of_getElem? hu') hlu')
    · rw [hi, hj]

/-- **A call that drives an engine may rely on its memory**: only its own actions change it. -/
theorem Driven.memory (h : Driven p) (hx : Stepped P p x q) {i : Nat}
    {t : Task World Choice Call} (ht : p.tasks[i]? = some t) (hl : t.live)
    (hd : t.call.drives = some e) (hother : ∀ c, x ≠ .run i c) :
    q.world.memory e = p.world.memory e := by
  cases hx with
  | move j c u hx hu hlu hp hmove =>
      refine hmove.memory_eq fun e' polls hcall hkeyed hidx => ?_
      have hdu : u.call.drives = some e' := by rw [hcall]; rfl
      obtain rfl := hkeyed.eq_of (h.keyed ht hl hd) hidx
      obtain rfl := h.sole hu ht hlu hl hdu hd
      exact hother c hx
  | outer y hx hy => exact outside_memory hy e
  | stay hw => rw [hw]

end Driven

/-! ## What does no harm -/

/-- **No flight changes, no bet is lost, and no outcome is stored.** -/
structure Harmless (w w' : World) : Prop where
  memory : ∀ e, w'.memory e = w.memory e
  lost : ∀ {n : Nat} {b' : Bet}, w'.bets[n]? = some b' → b'.won = some false →
    ∃ b, w.bets[n]? = some b ∧ b.StillLost b'
  drawn : ∀ {id : Nat} {r' : Round}, w'.rounds[id]? = some r' → r'.outcome.isSome = true →
    w.OutcomeKnown id

/-- **Nor is a cash-out noted.** -/
structure Paying (w w' : World) : Prop extends Harmless w w' where
  rows : ∀ {n : Nat} {b : Bet}, w.bets[n]? = some b → ∃ b', w'.bets[n]? = some b' ∧
    b'.roundId = b.roundId ∧ b'.cashoutPayoutMicro = b.cashoutPayoutMicro

theorem Lossless.harmless (h : Lossless w w') : Harmless w w' where
  memory := memory_of_actives h.actives
  lost := h.lost
  drawn hr ho := ⟨_, h.rounds ▸ hr, ho⟩

theorem Resolving.paying (h : Resolving w w') : Paying w w' where
  toHarmless := h.toLossless.harmless
  rows := h.rows

theorem Paying.refl (w : World) : Paying w w := (SameBets.refl w).resolving.paying

theorem Idle.paying {x : Action α} (hx : Idle x) : x.Keeps Paying :=
  hx.resolving.mono Resolving.paying

/-- A round is written whose outcome stays. -/
theorem Paying.updateRound {id : Nat} {f : Round → Round} (hf : ∀ r, (f r).outcome = r.outcome) :
    Paying w (w.updateRound id f) where
  memory _ := rfl
  lost hb hlost := ⟨_, hb, .refl hlost⟩
  drawn {n r'} hr ho := by
    simp only [World.updateRound, List.getElem?_modify] at hr
    obtain ⟨r, hr₀, rfl⟩ := Option.map_eq_some_iff.mp hr
    refine ⟨r, hr₀, ?_⟩
    by_cases hid : id = n
    · rwa [if_pos hid, hf] at ho
    · rwa [if_neg hid] at ho
  rows hb := ⟨_, hb, rfl, rfl⟩

end YantraRgs
