import YantraRgs.Properties.Runs

/-! # Replays reproduce the past

A replay and a dispute pack recompute the outcome of a settled round from its seeds, under the
configuration that is stored for the game when they are asked for. The engine drew the outcome under
the one it held in memory. As long as the stored one draws the same, and is not changed while a
replay or a dispute pack is put together, both say that the outcome matches. After the stored
configuration was changed, a fair round is reported as mismatching.

* **`StoredAsDrawn`** — the condition.
* **`replay_agrees`** — the property along every run that meets it; `replay_mismatch` — a run that
  does not. -/

namespace YantraRgs

open Await

variable {env : Env} {p : State}

/-- **Every replay and every dispute pack that was answered agrees** with the outcome it shows. -/
def ReplaysAgree (p : State) : Prop :=
  ∀ (i : Nat) (x : Answer), (i, x) ∈ p.world.answers →
    ∀ k ∈ p.calls[i]?, k.shows = true → x.Agrees

/-- **Whenever a replay or a dispute pack acts, the configuration stored for the round draws what its
outcome was drawn as; and nothing outside changes a stored configuration in the meantime.** -/
def StoredAsDrawn (env : Env) (p : State) (x : Happening) (q : State) : Prop :=
  (∀ i ∈ ran? x, ∀ t ∈ p.tasks[i]?, p.world.Redrawn env t.call) ∧
    (ran? x = none → ∀ t ∈ p.tasks, t.live → t.call.shows = true →
      q.world.storedConfigs = p.world.storedConfigs)

/-- The policy of such runs. -/
def Policy.agreed (env : Env) : Policy := { Policy.free env with agreeing := True }

theorem storedAsDrawn_meets (hverify : env.Verifies) :
    Meets (.agreed env) (StoredAsDrawn env) where
  permit {_ i _ _ t} h ht :=
    { accepted := fun h => h.elim
      voided := fun h => h.elim
      locked := fun h => h.elim
      journalled := fun h => h.elim
      redrawn := fun _ => h.1 i rfl t ht
      priced := fun h => h.elim }
  engines h := h.elim
  countedUp h := h.elim
  fit _ := ⟨fun h => h.elim, fun h => h.elim⟩
  closed h := h.elim
  crashes h := h.elim
  configs _ {_ _ _} h t ht hl hk := h.2 rfl t ht hl hk
  verifies _ := hverify
  focus _ _ h := nomatch h

/-- A step keeps the answers in agreement: what a call shows was recomputed from a fair row. -/
theorem replaysAgree_step {P : Policy} (hP : P.agreeing) {q : State} {x : Happening}
    (hs : (server P.env).step p x = some q) (hord : Orderly p) (hx : Stepped P p x q)
    (h : ReplaysAgree p) : ReplaysAgree q := by
  intro i y hy k hk hshows
  obtain ⟨more, hcalls⟩ := System.step_calls_grow hs
  -- the call that gave an answer was there when it did
  have hcall : i < p.calls.length → p.calls[i]? = some k := by
    intro hi
    rw [← hk, ← hcalls, List.getElem?_append_left hi]
  have hold : (i, y) ∈ p.world.answers → y.Agrees := fun hy =>
    h i y hy k (hcall (hord.answers _ hy)) hshows
  cases hx with
  | move j c t hrun ht hl hp hmove =>
      rcases hmove.answer_origin hy with hy | ⟨rfl, hagrees⟩
      · exact hold hy
      · have hi : i < p.calls.length := by
          rw [Pool.calls, List.length_map]
          exact (List.getElem?_eq_some_iff.mp ht).1
        have hsame := hcall hi
        rw [Pool.calls, List.getElem?_map, ht, Option.map_some, Option.some.injEq] at hsame
        exact hagrees hP (hsame ▸ hshows)
  | outer z hz hout => exact hold ((outside_outer hout).answers ▸ hy)
  | stay hw => exact hold (hw ▸ hy)

/-- **Replays reproduce the past.** In every run of any calls in any order, with crashes, restarts
and changes of the configurations anywhere, in which a replay or a dispute pack acts only while the
stored configuration draws what was drawn: no settled round is reported as mismatching. -/
theorem replay_agrees (hverify : env.Verifies) (h : History env (StoredAsDrawn env) p) :
    ReplaysAgree p :=
  (History.invariant (J := ReplaysAgree) (storedAsDrawn_meets hverify) h
    (fun _ _ _ _ _ hx => (nomatch hx)) fun _ _ _ hs _ _ hord hx hJ =>
      replaysAgree_step (P := .agreed env) trivial hs hord hx hJ).2

namespace Sample

theorem site_verifies : site.Verifies := by
  intro gameCode plugin hplugin ctx config
  simp only [site, Option.mem_def] at hplugin
  split at hplugin
  · obtain rfl := Option.some.inj hplugin
    simp [dice]
  · obtain rfl := Option.some.inj hplugin
    simp [crash]
  · cases hplugin

/-- The stored configuration of the dice game is changed. -/
def patched (config : GameMathConfig) : Happening :=
  .env (.patch 0 ⟨some (some config), none, none, none, none, none⟩)

/-- The round is replayed, by call 2. -/
def replayed : List Happening := .call (.roundReplay 0 0) :: run 2 3

/-- Whether call 2 answered with a replay of a settled round whose outcome does or does not
match. -/
def replays (matches' : Bool) (p : State) : Bool :=
  p.world.answers.any fun x => decide (x.1 = 2) && match x.2 with
    | .replay bundle => decide (bundle.state = .settled) &&
        bundle.recomputedOutcome.any (fun r => decide (r.2 = matches')) &&
        bundle.outcome.isSome
    | _ => false

end Sample

instance (r : Round) (stored : Option GameMathConfig) : Decidable (Redraws env r stored) :=
  inferInstanceAs (Decidable (∃ config ∈ stored, ∀ plugin ∈ env.getPlugin r.gameCode,
    ∀ drawn ∈ r.drawnUnder,
      plugin.computeOutcome r.rngContext config = plugin.computeOutcome r.rngContext drawn))

instance (w : World) : ∀ k : Call, Decidable (w.Redrawn env k)
  | .roundReplay roundId operatorId =>
      inferInstanceAs (Decidable (∀ r ∈ w.rounds[roundId]?, r.operatorId = operatorId →
        r.state = .settled → r.outcome.isSome = true → Redraws env r (w.storedConfig r.key)))
  | .disputePack operatorId transactionUuid =>
      inferInstanceAs (Decidable (∀ b ∈ w.bets, b.operatorId = operatorId →
        b.hasTransaction transactionUuid = true → ∀ r ∈ w.rounds[b.roundId]?,
          r.state = .settled → r.outcome.isSome = true →
            Redraws env r (w.storedConfig ⟨operatorId, r.gameCode, b.currency⟩)))
  | .start _ | .iteration _ _ | .placeBet _ _ | .cashOut _ _ | .tick | .createSession _
  | .terminateSession _ _ _ | .rotateSeed _ _ _ | .roundProof _ _ =>
      inferInstanceAs (Decidable True)

instance (p : State) (x : Happening) (q : State) : Decidable (StoredAsDrawn env p x q) :=
  inferInstanceAs (Decidable ((∀ i ∈ ran? x, ∀ t ∈ p.tasks[i]?, p.world.Redrawn env t.call) ∧
    (ran? x = none → ∀ t ∈ p.tasks, t.live → t.call.shows = true →
      q.world.storedConfigs = p.world.storedConfigs)))

/-- After a change that draws the same, the round is replayed as it was. -/
theorem replay_agrees_redrawn : ∃ p, History Sample.site (StoredAsDrawn Sample.site) p ∧
    Sample.replays true p = true ∧ ReplaysAgree p := by
  have h : Sample.shows (StoredAsDrawn Sample.site)
      (Sample.played ++ Sample.patched (.dice 2 1) :: Sample.replayed) (Sample.replays true) =
        true := by decide +kernel
  obtain ⟨p, hp, hv⟩ := Sample.history_of_shows h
  exact ⟨p, hp, hv, replay_agrees Sample.site_verifies hp⟩

/-- **A fair round is reported as mismatching** after the stored configuration was changed. -/
theorem replay_mismatch : ∃ p, History Sample.site Anything p ∧ ¬ ReplaysAgree p := by
  have h : Sample.shows Anything
      (Sample.played ++ Sample.patched (.dice 1 2) :: Sample.replayed) (fun p =>
        Sample.replays false p && (p.calls[2]?).any Call.shows) = true := by decide +kernel
  obtain ⟨p, hp, hv⟩ := Sample.history_of_shows h
  refine ⟨p, hp, fun hall => ?_⟩
  simp only [Sample.replays, Bool.and_eq_true, List.any_eq_true, Option.any_eq_true,
    decide_eq_true_eq] at hv
  obtain ⟨⟨⟨i, x⟩, hx, rfl, hmatch⟩, k, hk, hshows⟩ := hv
  have hagrees := hall 2 x hx k hk hshows
  cases x with
  | replay bundle =>
      simp only [Bool.and_eq_true, decide_eq_true_eq, Option.any_eq_true] at hmatch
      obtain ⟨⟨hsettled, r, hr, hfalse⟩, hsome⟩ := hmatch
      obtain ⟨outcome, ho⟩ := Option.isSome_iff_exists.mp hsome
      rw [hagrees hsettled outcome ho] at hr
      obtain rfl := Option.some.inj hr
      cases hfalse
  | _ => cases hmatch

end YantraRgs
