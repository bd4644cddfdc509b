import YantraRgs.Wallet.Invocation
import YantraRgs.Properties.BreakerProtocol

/-! # Probes are released

A half-open circuit that awaits a probe lets nobody through until the probe reports. A call reports
what its adapter answers, whatever becomes of its journal row; what the adapter throws leaves the
call before it reports.

* **`Released`** — every probe that is awaited belongs to a call that is still running.
* **`Answered`** — the condition on one step: the adapter of an awaited probe does not throw.
* **`Held`** — the invariant: an awaited probe has not come to its report yet.
* **`released_iff`** — the two agree along every list of events. -/

namespace YantraRgs.Invocation

open Await

variable {opts : BreakerOptions} {env : Env} {client : WalletClient} {p q : State}
variable {w w' : World} {i : Nat}

/-- A circuit awaits its probe: every other call is turned away. -/
def World.Awaits (w : World) (endpoint : WalletEndpoint) : Prop :=
  ∃ entry, w.breaker.get endpoint = some entry ∧ entry.state = .halfOpen ∧
    entry.probeInflight = true

/-- **Every probe that is awaited belongs to a call that is still running.** -/
def Released (_ : State) (_ : Happening) (q : State) : Prop :=
  ∀ endpoint, q.world.Awaits endpoint → ∃ i t, q.world.probe endpoint = some i ∧
    q.tasks[i]? = some t ∧ t.prog.ended = false

/-- **The condition on one step**: the adapter of an awaited probe does not throw, and its call is not
cut off. -/
def Answered (p : State) (e : Happening) (_ : State) : Prop :=
  match e with
  | .run i (.throws _) | .kill i =>
      ∀ endpoint, p.world.Awaits endpoint → p.world.probe endpoint ≠ some i
  | _ => True

/-! ## What a call has come to -/

/-- What is left of a call that was let through: it has not come to its report. -/
inductive Pending (opts : BreakerOptions) (env : Env) (client : WalletClient) (k : Call) :
    Action Unit → Prop
  | admitted : Pending opts env client k (do
      let started ← Action.now
      let call ← Action.createWalletCall (client.journalRow k.req k.audit)
      let answered ← exchange opts k.req.endpoint
      let _ ← finish env client (client.journalRow k.req k.audit) call started answered
      pure ())
  | started (started : Millis) : Pending opts env client k (do
      let call ← Action.createWalletCall (client.journalRow k.req k.audit)
      let answered ← exchange opts k.req.endpoint
      let _ ← finish env client (client.journalRow k.req k.audit) call started answered
      pure ())
  | journalled (started : Millis) (call : Option Nat) : Pending opts env client k (do
      let answered ← exchange opts k.req.endpoint
      let _ ← finish env client (client.journalRow k.req k.audit) call started answered
      pure ())

/-- The circuits are left alone. -/
def Unmoved (w w' : World) : Prop := w'.breaker = w.breaker ∧ w'.probe = w.probe

/-- What call `i` has come to: it is about to ask, it was let through, or no circuit awaits it. -/
inductive Stage (opts : BreakerOptions) (env : Env) (client : WalletClient) (w : World) (i : Nat) :
    Task World Answer Call → Prop
  | asking (k : Call) (h : ∀ endpoint, w.probe endpoint ≠ some i) :
      Stage opts env client w i ⟨k, serve opts env client k⟩
  | pending {k : Call} {prog : Action Unit} (h : Pending opts env client k prog) :
      Stage opts env client w i ⟨k, prog⟩
  | past {k : Call} {prog : Action Unit} (hprog : prog.Keeps Unmoved)
      (h : ∀ endpoint, w.Awaits endpoint → w.probe endpoint ≠ some i) :
      Stage opts env client w i ⟨k, prog⟩

/-- **The invariant**: every call is at a stage, and an awaited probe has not come to its report. -/
structure Held (opts : BreakerOptions) (env : Env) (client : WalletClient) (p : State) : Prop where
  stage : ∀ i t, p.tasks[i]? = some t → Stage opts env client p.world i t
  made : ∀ endpoint i, p.world.probe endpoint = some i → i < p.tasks.length
  probe : ∀ endpoint, p.world.Awaits endpoint → ∃ i t, p.world.probe endpoint = some i ∧
    p.tasks[i]? = some t ∧ t.call.req.endpoint = endpoint ∧ Pending opts env client t.call t.prog

/-- A call that has not come to its report is running. -/
theorem Pending.ended {k : Call} {prog : Action Unit} (h : Pending opts env client k prog) :
    prog.ended = false := by
  cases h <;> rfl

/-- An awaited probe belongs to a running call. -/
theorem Held.released {e : Happening} (h : Held opts env client q) : Released p e q := by
  intro endpoint haw
  obtain ⟨i, t, hi, ht, -, hpending⟩ := h.probe endpoint haw
  exact ⟨i, t, hi, ht, hpending.ended⟩

/-! ## The circuits -/

theorem Unmoved.refl (w : World) : Unmoved w w := ⟨rfl, rfl⟩

theorem Unmoved.awaits (h : Unmoved w w') (endpoint : WalletEndpoint) :
    w'.Awaits endpoint ↔ w.Awaits endpoint := by
  rw [World.Awaits, World.Awaits, h.1]

/-- What follows the adapter leaves the circuits alone. -/
theorem finish_keeps (row : WalletCall) (call : Option Nat) (started : Millis)
    (answered : Except String (WalletResponse × Millis)) :
    (finish env client row call started answered).Keeps Unmoved := by
  cases answered with
  | error message => trivial
  | ok answer =>
      obtain ⟨res, ended⟩ := answer
      cases call with
      | none => trivial
      | some id =>
          refine Prog.Keeps.bind (Prog.Keeps.bind (.lift ?_) fun prev => .lift ?_) fun _ => trivial
          · intro i c w a w' h
            cases c with
            | done | failed =>
                obtain rfl : w = w' := congrArg Prod.snd (Option.some.inj h)
                exact .refl w
            | reply | throws => cases h
          · intro i c w a w' h
            cases c with
            | done =>
                have hw : _ = w' := congrArg Prod.snd (Option.some.inj h)
                exact hw ▸ ⟨rfl, rfl⟩
            | failed =>
                obtain rfl : w = w' := congrArg Prod.snd (Option.some.inj h)
                exact .refl w
            | reply | throws => cases h

/-- A report leaves no circuit of its endpoint awaiting a probe, and the others alone. -/
theorem awaits_record {endpoint endpoint' : WalletEndpoint} {status : RsStatus}
    (h : (w.record opts endpoint status).Awaits endpoint') :
    endpoint' ≠ endpoint ∧ w.Awaits endpoint' := by
  obtain ⟨entry', hget', hhalf, hprobe⟩ := h
  unfold World.record at hget'
  cases hget : w.breaker.get endpoint with
  | none =>
      rw [hget] at hget'
      refine ⟨?_, entry', hget', hhalf, hprobe⟩
      rintro rfl
      rw [hget] at hget'
      cases hget'
  | some entry =>
      rw [hget] at hget'
      by_cases he : endpoint' = endpoint
      · subst he
        dsimp only at hget'
        rw [CircuitBreaker.get_set_self hget] at hget'
        obtain rfl := Option.some.inj hget'
        exact absurd hhalf CircuitBreaker.record_ne_halfOpen
      · dsimp only at hget'
        rw [CircuitBreaker.get_set_of_ne he] at hget'
        exact ⟨he, entry', hget', hhalf, hprobe⟩

theorem probe_record (endpoint : WalletEndpoint) (status : RsStatus) :
    (w.record opts endpoint status).probe = w.probe := by
  unfold World.record
  split <;> rfl

/-- A circuit that makes no call its probe stays as it is. -/
theorem tryAcquire_not_probe {now : Millis} {entry entry' : BreakerEntry} {d : BreakerDecision}
    (h : entry.tryAcquire opts now = (d, entry')) (hd : ¬ (d.allow = true ∧ d.state = .halfOpen)) :
    entry' = entry := by
  unfold BreakerEntry.tryAcquire BreakerEntry.thaw at h
  grind

/-! ## One action -/

/-- What call `i` may do to the circuits: become the probe of one, or leave who is awaited. -/
structure Moves (i : Nat) (w w' : World) : Prop where
  awaits : ∀ endpoint, w'.Awaits endpoint →
    w'.probe endpoint = some i ∨ w.Awaits endpoint ∧ w'.probe endpoint = w.probe endpoint
  probe : ∀ endpoint j, w'.probe endpoint = some j → j = i ∨ w.probe endpoint = some j

theorem Unmoved.moves (h : Unmoved w w') : Moves i w w' where
  awaits endpoint haw := .inr ⟨(h.awaits endpoint).mp haw, by rw [h.2]⟩
  probe endpoint j hj := .inr (by rw [← hj, h.2])

/-- A report makes nobody a probe. -/
theorem moves_record (endpoint : WalletEndpoint) (status : RsStatus) :
    Moves i w (w.record opts endpoint status) where
  awaits endpoint' haw := .inr ⟨(awaits_record haw).2, by rw [probe_record]⟩
  probe endpoint' j hj := .inr (by rw [← hj, probe_record])

/-- Asking makes nobody but the call itself a probe. -/
theorem moves_acquire {endpoint : WalletEndpoint} {entry : BreakerEntry}
    (hget : w.breaker.get endpoint = some entry) :
    Moves i w (w.acquire opts i endpoint entry) := by
  obtain ⟨d, entry', hacq⟩ : ∃ d entry', entry.tryAcquire opts w.now = (d, entry') := ⟨_, _, rfl⟩
  have hw : w.acquire opts i endpoint entry =
      { w with
        breaker := w.breaker.set endpoint entry'
        probe := if d.allow ∧ d.state = .halfOpen then
            fun e => if e = endpoint then some i else w.probe e
          else w.probe } := by
    simp only [World.acquire, hacq]
  rw [hw]
  by_cases hd : d.allow = true ∧ d.state = .halfOpen
  · rw [if_pos hd]
    refine ⟨fun endpoint' haw => ?_, fun endpoint' j hj => ?_⟩
    · by_cases he : endpoint' = endpoint
      · exact .inl (if_pos he)
      · right
        obtain ⟨x, hx, hhalf, hprobe⟩ := haw
        dsimp only at hx
        rw [CircuitBreaker.get_set_of_ne he] at hx
        exact ⟨⟨x, hx, hhalf, hprobe⟩, if_neg he⟩
    · dsimp only at hj
      split at hj
      · exact .inl (Option.some.inj hj).symm
      · exact .inr hj
  · rw [if_neg hd, tryAcquire_not_probe hacq hd]
    refine Unmoved.moves ⟨?_, rfl⟩
    -- the circuit is written back as it was
    cases endpoint <;> cases hget <;> rfl

/-- A call that is turned away is no probe. -/
theorem probe_acquire_of_not {endpoint : WalletEndpoint} {entry : BreakerEntry}
    (h : (entry.tryAcquire opts w.now).1.allow = false) :
    (w.acquire opts i endpoint entry).probe = w.probe := by
  simp [World.acquire, h]

/-- A call becomes a probe of the endpoint it asks at. -/
theorem probe_acquire {endpoint endpoint' : WalletEndpoint} {entry : BreakerEntry} {j : Nat}
    (h : (w.acquire opts i endpoint entry).probe endpoint' = some j) :
    endpoint = endpoint' ∨ w.probe endpoint' = some j := by
  simp only [World.acquire] at h
  split at h
  · dsimp only at h
    split at h
    · next he => exact .inl he.symm
    · exact .inr h
  · exact .inr h

/-- Another call's stage is left alone. -/
theorem Stage.frame {j : Nat} {t : Task World Answer Call} (h : Stage opts env client w j t)
    (hm : Moves i w w') (hij : j ≠ i) : Stage opts env client w' j t := by
  cases h with
  | asking k h =>
      exact .asking k fun endpoint hj => (hm.probe endpoint j hj).elim hij (h endpoint)
  | pending h => exact .pending h
  | past hprog h =>
      refine .past hprog fun endpoint haw hj => ?_
      rcases hm.awaits endpoint haw with hi | ⟨haw', hsame⟩
      · exact hij (Option.some.inj (hj.symm.trans hi))
      · exact h endpoint haw' (hsame.symm.trans hj)

/-- **One action of call `i` keeps the invariant**, when the call comes to a stage and is awaited only
before its report. -/
theorem Held.act {k : Call} {prog : Action Unit} (h : Held opts env client p)
    (hi : i < p.tasks.length) (hm : Moves i p.world w)
    (hstage : Stage opts env client w i ⟨k, prog⟩)
    (hpending : ∀ endpoint, w.Awaits endpoint → w.probe endpoint = some i →
      k.req.endpoint = endpoint ∧ Pending opts env client k prog) :
    Held opts env client ⟨w, p.tasks.set i ⟨k, prog⟩⟩ := by
  refine ⟨fun j t hj => ?_, fun endpoint j hj => ?_, fun endpoint haw => ?_⟩
  · rcases Table.getElem?_set_cases hj with ⟨rfl, rfl, -⟩ | ⟨hne, hj⟩
    · exact hstage
    · exact (h.stage j t hj).frame hm hne
  · rw [List.length_set]
    rcases hm.probe endpoint j hj with rfl | hj
    · exact hi
    · exact h.made endpoint j hj
  · by_cases hprobe : w.probe endpoint = some i
    · obtain ⟨he, hprog⟩ := hpending endpoint haw hprobe
      exact ⟨i, ⟨k, prog⟩, hprobe, List.getElem?_set_self hi, he, hprog⟩
    · obtain ⟨haw', hsame⟩ := (hm.awaits endpoint haw).resolve_left hprobe
      obtain ⟨j, t, hj, ht, he, hprog⟩ := h.probe endpoint haw'
      have hji : i ≠ j := fun hij => hprobe (by rw [hsame, hj, hij])
      exact ⟨j, t, hsame.trans hj, by rw [List.getElem?_set_ne hji, ht], he, hprog⟩

/-- The probe that a circuit awaits is a call at its endpoint that has not come to its report. -/
theorem Held.of_probe (h : Held opts env client p) {t : Task World Answer Call}
    (ht : p.tasks[i]? = some t) {endpoint : WalletEndpoint} (haw : p.world.Awaits endpoint)
    (hi : p.world.probe endpoint = some i) :
    t.call.req.endpoint = endpoint ∧ Pending opts env client t.call t.prog := by
  obtain ⟨j, u, hj, hu, he, hprog⟩ := h.probe endpoint haw
  obtain rfl := Option.some.inj (hj.symm.trans hi)
  obtain rfl := Option.some.inj (hu.symm.trans ht)
  exact ⟨he, hprog⟩

/-- A step that ends call `i` and leaves the circuits alone releases every probe exactly when call `i`
is none that is awaited. -/
theorem Held.ends {e : Happening} {k : Call} (h : Held opts env client p) (hi : i < p.tasks.length)
    (hu : Unmoved p.world w) (hanswered : Answered p e q ↔
      ∀ endpoint, p.world.Awaits endpoint → p.world.probe endpoint ≠ some i)
    (hq : q = ⟨w, p.tasks.set i ⟨k, .ret ()⟩⟩) :
    (Released p e q ↔ Answered p e q) ∧ (Answered p e q → Held opts env client q) := by
  have hheld : Answered p e q → Held opts env client q := by
    intro ha
    rw [hanswered] at ha
    rw [hq]
    have hnone : ∀ endpoint, w.Awaits endpoint → w.probe endpoint ≠ some i := by
      intro endpoint haw
      rw [hu.2]
      exact ha endpoint ((hu.awaits endpoint).mp haw)
    exact h.act hi hu.moves (.past trivial hnone) fun endpoint haw hprobe =>
      absurd hprobe (hnone endpoint haw)
  refine ⟨⟨fun hr => hanswered.mpr fun endpoint haw hprobe => ?_, fun ha => (hheld ha).released⟩,
    hheld⟩
  -- the probe that is awaited has ended
  subst hq
  obtain ⟨j, t, hj, ht, hrunning⟩ := hr endpoint ((hu.awaits endpoint).mpr haw)
  have hji : j = i := Option.some.inj (by rw [← hj, ← hprobe, hu.2])
  subst hji
  dsimp only at ht
  rw [List.getElem?_set_self hi] at ht
  obtain rfl := Option.some.inj ht
  cases hrunning

/-! ## One step -/

/-- What a call does once its circuit has decided. -/
def proceed (opts : BreakerOptions) (env : Env) (client : WalletClient) (k : Call)
    (decision : BreakerDecision) : Action (Except String WalletResponse) :=
  if !decision.allow then
    pure (.ok ⟨.timeout, k.req.requestUuid, none,
      some (if decision.state = .open then "circuit_open" else "circuit_probing")⟩)
  else do
    let started ← Action.now
    let call ← Action.createWalletCall (client.journalRow k.req k.audit)
    let answered ← exchange opts k.req.endpoint
    finish env client (client.journalRow k.req k.audit) call started answered

/-- The first action of a call asks. -/
theorem serve_eq (k : Call) : serve opts env client k = .act
    (fun i _ w => some (match w.breaker.get k.req.endpoint with
      | none => (⟨.closed, true⟩, w)
      | some entry => ((entry.tryAcquire opts w.now).1, w.acquire opts i k.req.endpoint entry)))
    fun decision => (proceed opts env client k decision).bind fun _ => .ret () := rfl

/-- A call that is turned away ends; another one has its report before it. -/
theorem proceed_cases (opts : BreakerOptions) (env : Env) (client : WalletClient) (k : Call)
    (decision : BreakerDecision) :
    (decision.allow = false ∧
      ((proceed opts env client k decision).bind fun _ => .ret ()) = .ret ()) ∨
    Pending opts env client k ((proceed opts env client k decision).bind fun _ => .ret ()) := by
  cases hallow : decision.allow with
  | false =>
      left
      simp only [proceed, hallow]
      exact ⟨trivial, rfl⟩
  | true =>
      right
      simp only [proceed, hallow]
      exact .admitted

/-- A call asks, and comes to what its circuit decides. -/
theorem Held.asks {k : Call} {decision : BreakerDecision} (h : Held opts env client p)
    (hi : i < p.tasks.length) (hm : Moves i p.world w)
    (hno : decision.allow = false → ∀ endpoint, w.probe endpoint ≠ some i)
    (hat : ∀ endpoint, w.probe endpoint = some i → k.req.endpoint = endpoint) :
    Held opts env client ⟨w, p.tasks.set i
      ⟨k, (proceed opts env client k decision).bind fun _ => .ret ()⟩⟩ := by
  rcases proceed_cases opts env client k decision with
    ⟨hallow, hret⟩ | hpending
  · rw [hret]
    exact h.act hi hm (.past trivial fun endpoint _ => hno hallow endpoint)
      fun endpoint _ hprobe => absurd hprobe (hno hallow endpoint)
  · exact h.act hi hm (.pending hpending) fun endpoint _ hprobe => ⟨hat endpoint hprobe, hpending⟩

/-- A call that was let through goes on before its report. -/
theorem Held.waits {k : Call} {prog prog' : Action Unit} (h : Held opts env client p)
    (ht : p.tasks[i]? = some ⟨k, prog⟩) (hu : Unmoved p.world w)
    (hprog' : Pending opts env client k prog') :
    Held opts env client ⟨w, p.tasks.set i ⟨k, prog'⟩⟩ := by
  refine h.act (List.getElem?_eq_some_iff.mp ht).1 hu.moves (.pending hprog') fun endpoint haw hprobe => ?_
  rw [hu.2] at hprobe
  exact ⟨(h.of_probe ht ((hu.awaits endpoint).mp haw) hprobe).1, hprog'⟩

/-- A call reports what its adapter answered. -/
theorem Held.reports {k : Call} {prog prog' : Action Unit} (h : Held opts env client p)
    (ht : p.tasks[i]? = some ⟨k, prog⟩) (status : RsStatus) (hprog' : prog'.Keeps Unmoved) :
    Held opts env client ⟨p.world.record opts k.req.endpoint status, p.tasks.set i ⟨k, prog'⟩⟩ := by
  have hnone : ∀ endpoint, (p.world.record opts k.req.endpoint status).Awaits endpoint →
      (p.world.record opts k.req.endpoint status).probe endpoint ≠ some i := by
    intro endpoint haw hprobe
    rw [probe_record] at hprobe
    obtain ⟨hne, haw⟩ := awaits_record haw
    exact hne (h.of_probe ht haw hprobe).1.symm
  exact h.act (List.getElem?_eq_some_iff.mp ht).1 (moves_record _ _) (.past hprog' hnone)
    fun endpoint haw hprobe => absurd hprobe (hnone endpoint haw)

/-- **One action of a call**: every probe stays released exactly when the adapter of an awaited probe
does not throw, and then the invariant holds on. -/
theorem Held.run {c : Answer} (h : Held opts env client p)
    (hs : (system opts env client).step p (.run i c) = some q) :
    (Released p (.run i c) q ↔ Answered p (.run i c) q) ∧
      (Answered p (.run i c) q → Held opts env client q) := by
  have hfree : Answered p (.run i c) q → Held opts env client q →
      (Released p (.run i c) q ↔ Answered p (.run i c) q) ∧
        (Answered p (.run i c) q → Held opts env client q) :=
    fun ha hheld => ⟨iff_of_true hheld.released ha, fun _ => hheld⟩
  simp only [System.step, System.runTask] at hs
  cases ht : p.tasks[i]? with
  | none => simp [ht] at hs
  | some t =>
      have hi : i < p.tasks.length := (List.getElem?_eq_some_iff.mp ht).1
      have hst := h.stage i t ht
      rw [ht] at hs
      cases hst with
      | asking k hnot =>
          have ha : Answered p (.run i c) q := by
            cases c with
            | throws => exact fun endpoint _ => hnot endpoint
            | done | failed | reply => trivial
          refine hfree ha ?_
          simp only [serve_eq, Option.map_some, Option.some.injEq] at hs
          subst hs
          cases hget : p.world.breaker.get k.req.endpoint with
          | none =>
              exact h.asks hi (Unmoved.refl _).moves (fun h => by cases h)
                fun endpoint hprobe => absurd hprobe (hnot endpoint)
          | some entry =>
              refine h.asks hi (moves_acquire hget) (fun hallow endpoint => ?_)
                fun endpoint hprobe => (probe_acquire hprobe).resolve_right (hnot endpoint)
              rw [probe_acquire_of_not hallow]
              exact hnot endpoint
      | pending hpending =>
          rename_i k prog
          cases hpending with
          | admitted =>
              cases c with
              | done =>
                  obtain rfl := Option.some.inj hs
                  exact hfree trivial (h.waits ht (.refl _) (.started p.world.now))
              | failed | reply | throws => cases hs
          | started started =>
              cases c with
              | done =>
                  change Option.map _ (if _ then _ else _) = _ at hs
                  split at hs
                  · obtain rfl := Option.some.inj hs
                    exact hfree trivial (h.waits ht (.refl _) (.journalled started none))
                  · obtain rfl := Option.some.inj hs
                    exact hfree trivial (h.waits ht ⟨rfl, rfl⟩
                      (.journalled started (some p.world.walletCalls.length)))
              | failed =>
                  obtain rfl := Option.some.inj hs
                  exact hfree trivial (h.waits ht (.refl _) (.journalled started none))
              | reply | throws => cases hs
          | journalled started call =>
              cases c with
              | reply res =>
                  obtain rfl := Option.some.inj hs
                  exact hfree trivial (h.reports ht res.status
                    ((finish_keeps _ _ _ _).bind fun _ => trivial))
              | throws message =>
                  obtain rfl := Option.some.inj hs
                  exact h.ends hi (.refl _) Iff.rfl rfl
              | done | failed => cases hs
      | past hprog hnot =>
          rename_i k prog
          have ha : Answered p (.run i c) q := by
            cases c with
            | throws => exact hnot
            | done | failed | reply => trivial
          refine hfree ha ?_
          cases prog with
          | ret value => cases hs
          | act run next =>
              obtain ⟨⟨b, w⟩, hrun, hq⟩ := Option.map_eq_some_iff.mp hs
              have hu : Unmoved p.world w := hprog.1 i c p.world b w hrun
              subst hq
              have hnone : ∀ endpoint, w.Awaits endpoint → w.probe endpoint ≠ some i := by
                intro endpoint haw
                rw [hu.2]
                exact hnot endpoint ((hu.awaits endpoint).mp haw)
              exact h.act hi hu.moves (.past (hprog.2 b) hnone) fun endpoint haw hprobe =>
                absurd hprobe (hnone endpoint haw)

/-- **One step** releases every probe exactly when the adapter of an awaited probe does not throw, and
then the invariant holds on. -/
theorem Held.step {e : Happening} (h : Held opts env client p)
    (hs : (system opts env client).step p e = some q) :
    (Released p e q ↔ Answered p e q) ∧ (Answered p e q → Held opts env client q) := by
  cases e with
  | run i c => exact h.run hs
  | call k =>
      have hq : (⟨p.world, p.tasks ++ [⟨k, serve opts env client k⟩]⟩ : State) = q := by
        simpa [System.step, system] using hs
      subst hq
      have hheld : Held opts env client ⟨p.world, p.tasks ++ [⟨k, serve opts env client k⟩]⟩ := by
        refine ⟨fun j t hj => ?_, fun endpoint j hj => ?_, fun endpoint haw => ?_⟩
        · rcases Table.getElem?_concat_cases hj with hj | ⟨rfl, rfl⟩
          · exact h.stage j t hj
          · exact .asking k fun endpoint hprobe => Nat.lt_irrefl _ (h.made endpoint _ hprobe)
        · rw [List.length_append]
          exact Nat.lt_add_right _ (h.made endpoint j hj)
        · obtain ⟨j, t, hj, ht, hprog⟩ := h.probe endpoint haw
          refine ⟨j, t, hj, ?_, hprog⟩
          rw [List.getElem?_append_left (List.getElem?_eq_some_iff.mp ht).1, ht]
      exact ⟨iff_of_true hheld.released trivial, fun _ => hheld⟩
  | kill i =>
      obtain rfl : (⟨p.world, p.tasks.modify i Task.cut⟩ : State) = q := by
        simpa [System.step] using hs
      cases ht : p.tasks[i]? with
      | none =>
          have hsame : p.tasks.modify i Task.cut = p.tasks :=
            List.modify_eq_self (List.getElem?_eq_none_iff.mp ht)
          rw [hsame]
          refine ⟨iff_of_true h.released fun endpoint _ hprobe => ?_, fun _ => h⟩
          exact absurd (h.made endpoint i hprobe) (Nat.not_lt.mpr (List.getElem?_eq_none_iff.mp ht))
      | some t =>
          refine h.ends (k := t.call) (List.getElem?_eq_some_iff.mp ht).1 (.refl _) Iff.rfl ?_
          rw [List.modify_eq_set_getElem?, ht]
          rfl
  | env ms =>
      have hq : (⟨{ p.world with now := p.world.now + ms }, p.tasks⟩ : State) = q := by
        simpa [System.step, system] using hs
      subst hq
      have hheld : Held opts env client ⟨{ p.world with now := p.world.now + ms }, p.tasks⟩ := by
        refine ⟨fun j t hj => ?_, h.made, h.probe⟩
        cases h.stage j t hj with
        | asking k hnot => exact .asking k hnot
        | pending hpending => exact .pending hpending
        | past hprog hnot => exact .past hprog hnot
      exact ⟨iff_of_true hheld.released trivial, fun _ => hheld⟩

/-! ## Runs -/

/-- A client that nobody has used yet awaits no probe. -/
theorem initial_held (now : Millis) (walletCalls : List WalletCall) :
    Held opts env client (initial now walletCalls) := by
  refine ⟨fun i t ht => by simp [initial] at ht, (fun endpoint i hi => nomatch hi),
    fun endpoint haw => ?_⟩
  obtain ⟨entry, hget, hhalf, -⟩ := haw
  obtain rfl : entry = .fresh := by
    cases endpoint <;> simp_all [initial, Breaker.get, Breaker.fresh]
  cases hhalf

open Classical in
/-- **Every probe is released exactly when its adapter answers**: for every threshold and cooldown,
every journal and every failure to write it, and every list of events of any number of concurrent
calls, every awaited probe belongs to a running call all along exactly when the adapter of an
awaited probe never throws. -/
theorem released_iff (opts : BreakerOptions) (env : Env) (client : WalletClient) (now : Millis)
    (walletCalls : List WalletCall) (es : List Happening) :
    (system opts env client).exec Released (initial now walletCalls) es =
      (system opts env client).exec Answered (initial now walletCalls) es :=
  System.exec_congr (I := Held opts env client) es (initial_held now walletCalls)
    fun h hs => h.step hs

namespace Sample

/-- Nothing is registered, and every row has one hash. -/
def unconfigured : Env where
  getPlugin _ := none
  hashWalletCall _ _ _ := 0
  hashRound _ _ _ := 0
  currentBuildHash := none
  checkJurisdictionRules _ := ⟨true, none, none⟩
  effectiveRGFloor _ floor := floor

/-- A stake. -/
def bet (n : Nat) : Call where
  req := ⟨.bet, ⟨.request, n, 0⟩, some ⟨.stake, n, 1⟩, none, 0, .named "player", 0, 0, some 10000,
    some n⟩
  audit := ⟨none, some n, none⟩

/-- Call `i` is let through and journalled. -/
def handed (i : Nat) : List Happening := [.run i .done, .run i .done, .run i .done]

/-- The adapter answers call `i` with a timeout, which is journalled. -/
def timesOut (i : Nat) : List Happening :=
  [.run i (.reply ⟨.timeout, ⟨.request, i, 0⟩, none, some "timeout"⟩), .run i .done, .run i .done]

/-- Five stakes time out, and the circuit opens; after its cooldown the sixth one is its probe. -/
def probing : List Happening :=
  (List.range 5).flatMap (fun i => .call (bet i) :: handed i ++ timesOut i) ++
    .env 30000 :: .call (bet 5) :: handed 5

/-- The client of an operator. -/
def walletClient : WalletClient := ⟨0, none⟩

end Sample

/-- **A probe that is never released**: its adapter threw, and its circuit turns every later stake
away. -/
theorem probe_stuck : ¬ ∀ (opts : BreakerOptions) (env : Env) (client : WalletClient) (p q : State)
    (e : Happening), (system opts env client).Run Await.Anything (initial 0 []) p →
      (system opts env client).step p e = some q → Released p e q := by
  intro h
  have hrun : (((system .default Sample.unconfigured Sample.walletClient).exec Await.Anything (initial 0 [])
      Sample.probing).bind fun p => ((system .default Sample.unconfigured Sample.walletClient).step p
        (.run 5 (.throws "database is gone"))).map fun q =>
          (q.world.breaker.bet, q.tasks.all fun t => t.prog.ended)) =
            some (⟨.halfOpen, 5, 0, true⟩, true) := by
    decide +kernel
  obtain ⟨p, hp, hq⟩ := Option.bind_eq_some_iff.mp hrun
  obtain ⟨q, hq, hv⟩ := Option.map_eq_some_iff.mp hq
  obtain ⟨hbet, hended⟩ := Prod.mk.inj hv
  have hawaits : q.world.Awaits .bet := by
    refine ⟨q.world.breaker.bet, rfl, ?_, ?_⟩
    · rw [hbet]
    · rw [hbet]
  obtain ⟨i, t, -, ht, hrunning⟩ := h _ _ _ p q _ (.of_exec hp) hq .bet hawaits
  have ht' := List.all_eq_true.mp hended t (List.mem_of_getElem? ht)
  rw [hrunning] at ht'
  cases ht'

end YantraRgs.Invocation
