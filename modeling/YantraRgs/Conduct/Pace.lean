import YantraRgs.Conduct.Server
import YantraRgs.Server.JurisdictionRules
import Mathlib.Data.List.Pairwise

/-! # The pace of a server

Time does not run backwards, an action takes none, and a bet is placed now. The rules of a session's
jurisdiction stay those of its first day.

* **`World.floorMs`** — the least time between two spins of a session.
* **`Paced`** — what every step keeps; **`Stepped.paced`**.
* **`World.Dated`** — bets are in the order in which they were placed; **`Stepped.dated`**. -/

namespace YantraRgs

open Await

namespace World

variable (env : Env) (w : World)

/-- The least time between two spins of a session; 0 is none. -/
def floorMs (sessionId : Nat) : Millis :=
  ((w.sessions[sessionId]?).map fun s => (getJurisdiction s.jurisdiction).minSpinMs).getD 0

/-- Whether a round is of a game with a flight. -/
def live (roundId : Nat) : Bool :=
  (w.rounds[roundId]?).any fun r => ((env.getPlugin r.gameCode).bind GamePlugin.liveCrash).isSome

/-- The session is there, and its jurisdiction lets it spin as fast as it likes. -/
def Exempt (sessionId : Nat) : Prop :=
  (w.sessions[sessionId]?).isSome = true ∧ w.floorMs sessionId = 0

/-- Bets are in the order in which they were placed. -/
structure Dated (w : World) : Prop where
  now : ∀ b ∈ w.bets, b.placedAt ≤ w.now
  order : ∀ {m n : Nat} {b b' : Bet}, m ≤ n → w.bets[m]? = some b → w.bets[n]? = some b' →
    b.placedAt ≤ b'.placedAt

end World

/-! ## What every step keeps -/

/-- **What every step keeps**, as far as spins go: time does not run backwards, and the least time of a
session stays. -/
structure Paced (w w' : World) : Prop where
  later : Later w w'
  now : w.now ≤ w'.now
  floorMs : ∀ {id : Nat}, (w.sessions[id]?).isSome = true → w'.floorMs id = w.floorMs id

section Paced

variable {P : Policy} {env : Env} {i : Nat} {k : Call} {w w' w'' : World}

theorem Paced.refl (w : World) : Paced w w := ⟨.refl w, Nat.le_refl _, fun _ => rfl⟩

/-- A session stays. -/
theorem Later.isSome_session (h : Later w w') {id : Nat} (hs : (w.sessions[id]?).isSome = true) :
    (w'.sessions[id]?).isSome = true := by
  obtain ⟨s, hs⟩ := Option.isSome_iff_exists.mp hs
  obtain ⟨s', hs', -⟩ := h.session hs
  exact Option.isSome_iff_exists.mpr ⟨s', hs'⟩

theorem Paced.trans (h : Paced w w') (h' : Paced w' w'') : Paced w w'' where
  later := h.later.trans h'.later
  now := Nat.le_trans h.now h'.now
  floorMs hs := (h'.floorMs (h.later.isSome_session hs)).trans (h.floorMs hs)

/-- A session with a least time is there. -/
theorem World.isSome_of_floorMs {sessionId : Nat} (h : 0 < w.floorMs sessionId) :
    (w.sessions[sessionId]?).isSome = true := by
  cases hs : w.sessions[sessionId]? with
  | none =>
      rw [World.floorMs, hs] at h
      cases h
  | some s => rfl

/-- A session that may spin as fast as it likes stays so. -/
theorem Paced.exempt (h : Paced w w') {id : Nat} (he : w.Exempt id) : w'.Exempt id :=
  ⟨h.later.isSome_session he.1, (h.floorMs he.1).trans he.2⟩

/-- A round of a game with a flight stays one. -/
theorem Paced.live (h : Paced w w') {id : Nat} (hl : w'.live env id = false) :
    w.live env id = false := by
  cases hr : w.rounds[id]? with
  | none => simp [World.live, hr]
  | some r =>
      obtain ⟨r', hr', he⟩ := h.later.round hr
      have hgame : r'.gameCode = r.gameCode := congrArg (fun k => k.gameCode) he.key
      rw [World.live, hr', Option.any_some, hgame] at hl
      rw [World.live, hr, Option.any_some, hl]

theorem Bet.Later.placedAt {b b' : Bet} (h : b.Later b') : b'.placedAt = b.placedAt :=
  congrArg (fun t => t.2.2.2.2.2) h.terms

theorem Bet.Later.not_rejected {b b' : Bet} (h : b.Later b') (hb : b'.status ≠ .rejected) :
    b.status ≠ .rejected := fun hr => hb (h.rejected hr)

/-- An action takes no time. -/
theorem Move.now (h : Move P i k w w') : w'.now = w.now := by
  cases h with
  | idle h => exact h.now
  | _ => rfl

theorem SessionStep.jurisdiction {id : Nat} {s s' : GameSession} (h : SessionStep w id s s') :
    s'.jurisdiction = s.jurisdiction := by
  cases h <;> rfl

/-- **Every action keeps the least times.** -/
theorem Move.paced (h : Move P i k w w') : Paced w w' where
  later := h.later
  now := h.now.ge
  floorMs {id} hs := by
    obtain ⟨s', hs'⟩ := Option.isSome_iff_exists.mp (h.later.isSome_session hs)
    rcases h.session_origin hs' with ⟨s, hs₀, rfl | ⟨hstep, -⟩⟩ | ⟨hid, -⟩
    · rw [World.floorMs, World.floorMs, hs₀, hs']
    · rw [World.floorMs, World.floorMs, hs₀, hs', Option.map_some, Option.map_some,
        hstep.jurisdiction]
    · -- a new session was not there before
      rw [hid, List.getElem?_eq_none (Nat.le_refl _)] at hs
      cases hs

/-- Time does not run backwards. -/
theorem outside_now {x : Outside} (h : w.outside x = some w') : w.now ≤ w'.now := by
  cases x with
  | elapse ms =>
      obtain rfl : _ = w' := by simpa [World.outside] using h
      exact Nat.le_add_right _ _
  | deliver sent v message =>
      simp only [World.outside, World.deliver] at h
      split at h
      · obtain ⟨s, -, h⟩ := Option.bind_eq_some_iff.mp h
        obtain ⟨book, -, rfl⟩ := Option.map_eq_some_iff.mp h
        exact Nat.le_refl _
      · cases h
  | _ =>
      obtain rfl : _ = w' := by simpa [World.outside] using h
      exact Nat.le_refl _

/-- **Every outside event keeps the least times.** -/
theorem outside_paced {x : Outside} (h : w.outside x = some w') : Paced w w' where
  later := outside_later h
  now := outside_now h
  floorMs _ := by rw [World.floorMs, World.floorMs, (outside_outer h).sessions]

theorem Stepped.paced {p q : State} {x : Happening} (h : Stepped P p x q) : Paced p.world q.world := by
  cases h with
  | move i c t hx ht hl hp h => exact h.paced
  | outer y hx h => exact outside_paced h
  | stay h => exact h ▸ .refl _

end Paced

/-! ## Bets in the order of time -/

section Dated

variable {P : Policy} {i : Nat} {k : Call} {w w' : World}

/-- The latest of some bets is not earlier than any of them. -/
theorem World.Dated.le_last (h : w.Dated) {f : Bet → Bool} {b : Bet} (hb : b ∈ w.bets)
    (hf : f b = true) : ∃ last, (w.bets.filter f).getLast? = some last ∧ b.placedAt ≤ last.placedAt := by
  have hsorted : w.bets.Pairwise fun b b' => b.placedAt ≤ b'.placedAt := by
    rw [List.pairwise_iff_getElem]
    intro m n hm hn hmn
    exact h.order hmn.le (List.getElem?_eq_getElem hm) (List.getElem?_eq_getElem hn)
  have hmem : b ∈ w.bets.filter f := List.mem_filter.mpr ⟨hb, hf⟩
  refine ⟨_, List.getLast?_eq_getLast_of_ne_nil (List.ne_nil_of_mem hmem), ?_⟩
  exact (hsorted.filter f).rel_getLast_of_rel_getLast_getLast hmem (Nat.le_refl _)

/-- **An action keeps the bets in the order of time**: a bet is placed now. -/
theorem World.Dated.move (hw : w.Dated) (h : Move P i k w w') : w'.Dated := by
  have hold : ∀ {n : Nat} {b' : Bet}, w'.bets[n]? = some b' →
      (∃ b, w.bets[n]? = some b ∧ b'.placedAt = b.placedAt) ∨
        (n = w.bets.length ∧ b'.placedAt = w.now) := by
    intro n b' hb'
    rcases h.bet_origin hb' with ⟨b, hb, rfl | ⟨hstep, -⟩⟩ | ⟨hn, hnew⟩
    · exact .inl ⟨_, hb, rfl⟩
    · exact .inl ⟨b, hb, hstep.later.placedAt⟩
    · exact .inr ⟨hn, hnew.placedAt⟩
  refine ⟨fun b' hb' => ?_, fun {m n b b'} hmn hb hb' => ?_⟩
  · obtain ⟨n, hn⟩ := List.mem_iff_getElem?.mp hb'
    rw [h.now]
    rcases hold hn with ⟨b, hb, hat⟩ | ⟨-, hat⟩
    · rw [hat]
      exact hw.now b (List.mem_of_getElem? hb)
    · rw [hat]
  · rcases hold hb with ⟨b₀, hb₀, hat⟩ | ⟨rfl, hat⟩ <;>
      rcases hold hb' with ⟨b₀', hb₀', hat'⟩ | ⟨rfl, hat'⟩
    · rw [hat, hat']
      exact hw.order hmn hb₀ hb₀'
    · rw [hat, hat']
      exact hw.now b₀ (List.mem_of_getElem? hb₀)
    · have hlt := (List.getElem?_eq_some_iff.mp hb₀').1
      omega
    · rw [hat, hat']

theorem Stepped.dated {p q : State} {x : Happening} (h : Stepped P p x q) (hp : p.world.Dated) :
    q.world.Dated := by
  cases h with
  | move i c t hx ht hl hperm h => exact hp.move h
  | outer y hx h =>
      have hbets := (outside_outer h).bets
      refine ⟨fun b hb => ?_, fun hmn hb hb' => hp.order hmn (hbets ▸ hb) (hbets ▸ hb')⟩
      exact Nat.le_trans (hp.now b (hbets ▸ hb)) (outside_now h)
  | stay h => exact h ▸ hp

end Dated

/-! ## Where the bets of the next state come from -/

/-- Where a bet of the next state comes from. -/
theorem Stepped.bet_origin {P : Policy} {p q : State} {x : Happening} (h : Stepped P p x q) {n : Nat}
    {b' : Bet} (hb : q.world.bets[n]? = some b') : (∃ b, p.world.bets[n]? = some b ∧ b.Later b') ∨
      ∃ i c t, x = .run i c ∧ p.tasks[i]? = some t ∧ n = p.world.bets.length ∧
        NewBet i t.call p.world b' := by
  cases h with
  | move i c t hx ht hl hp h =>
      rcases h.bet_origin hb with ⟨b, hb, rfl | ⟨hstep, -⟩⟩ | ⟨hn, hnew⟩
      · exact .inl ⟨_, hb, .refl _⟩
      · exact .inl ⟨b, hb, hstep.later⟩
      · exact .inr ⟨i, c, t, hx, ht, hn, hnew⟩
  | outer y hx h => exact .inl ⟨b', (outside_outer h).bets ▸ hb, .refl _⟩
  | stay h => exact .inl ⟨b', h ▸ hb, .refl _⟩

end YantraRgs
