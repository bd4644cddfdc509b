import YantraRgs.Db.Table
import YantraRgs.Wallet.BreakerCalls
import Mathlib.Data.List.Nodup

/-! # The protocol of a circuit breaker

An open circuit is left when its cooldown has elapsed, for one probe; a half-open circuit is left by
the answer of its probe. A report carries no identity, so the circuit takes the answer of a call that
it let through long ago, while it was closed, for news: such an answer closes an open circuit before
its cooldown, or ends the probing of a half-open one.

* **`Protocol`** — what the state machine of the source says about one step.
* **`OnTime`** — the condition on one step.
* **`Tracked`** — the invariant of one circuit.
* **`protocol_iff`** — the two agree along every list of events. -/

namespace YantraRgs.CircuitBreaker

open Await

variable {opts : BreakerOptions} {p q : State} {w w' : World} {i : Nat}

/-- **What the state machine says about one step** of a circuit. -/
structure Protocol (opts : BreakerOptions) (p : State) (e : Happening) (q : State) : Prop where
  /-- At most one probe is outstanding. -/
  one : ∀ endpoint entry, q.world.breaker.get endpoint = some entry →
    (q.world.probes endpoint).length ≤ 1
  /-- An open circuit is left when the cooldown has elapsed, for one probe. -/
  opened : ∀ endpoint entry entry', p.world.breaker.get endpoint = some entry →
    q.world.breaker.get endpoint = some entry' → entry.state = .open → entry'.state ≠ .open →
      entry'.state = .halfOpen ∧ opts.cooldownMs ≤ p.world.now - entry.openedAt ∧
        (q.world.probes endpoint).length = 1
  /-- A half-open circuit is left by the report of its probe. -/
  probing : ∀ endpoint entry entry', p.world.breaker.get endpoint = some entry →
    q.world.breaker.get endpoint = some entry' → entry.state = .halfOpen →
      entry'.state ≠ .halfOpen → ∃ i status, e = .run i status ∧
        p.world.probes endpoint = [i] ∧ q.world.probes endpoint = []

/-- **The condition on one step**: a call that was not let through as a probe reports while the
circuit is closed, or it reports a failure to an open one. -/
def OnTime (p : State) (e : Happening) (_ : State) : Prop :=
  match e with
  | .run i status => ∀ x ∈ p.world.outstanding, x.caller = i → x.state ≠ .halfOpen →
      ∀ entry ∈ p.world.breaker.get x.endpoint, entry.state = .closed ∨
        (entry.state = .open ∧ status.healthy = false)
  | _ => True

instance (p : State) (e : Happening) (q : State) : Decidable (OnTime p e q) := by
  unfold OnTime
  split
  · infer_instance
  · infer_instance

/-! ## One circuit -/

/-- **The invariant of one circuit**: a half-open circuit knows of its probe, which is the only one,
no other circuit has a probe, and a circuit that is not closed has seen its failures. -/
structure Tracked (opts : BreakerOptions) (entry : BreakerEntry) (probes : List Nat) : Prop where
  probing : entry.state = .halfOpen → entry.probeInflight = true ∧ ∃ i, probes = [i]
  idle : entry.state ≠ .halfOpen → probes = []
  failing : entry.state ≠ .closed → opts.failureThreshold ≤ entry.consecutiveFailures

/-- A circuit has at most one probe. -/
theorem Tracked.length_le {entry : BreakerEntry} {probes : List Nat}
    (h : Tracked opts entry probes) : probes.length ≤ 1 := by
  by_cases hs : entry.state = .halfOpen
  · obtain ⟨-, i, rfl⟩ := h.probing hs
    exact Nat.le_refl _
  · rw [h.idle hs]
    exact Nat.zero_le _

/-- What asking comes to: an open circuit whose cooldown has elapsed lets the call through as its
probe, a closed one lets it through, and any other one does not. -/
theorem tryAcquire_cases (now : Millis) {entry : BreakerEntry} {probes : List Nat}
    (h : Tracked opts entry probes) :
    (entry.state = .open ∧ opts.cooldownMs ≤ now - entry.openedAt ∧
      entry.tryAcquire opts now = (⟨.halfOpen, true⟩,
        { entry with state := .halfOpen, probeInflight := true })) ∨
    (entry.state = .closed ∧ entry.tryAcquire opts now = (⟨.closed, true⟩, entry)) ∨
    (entry.state ≠ .closed ∧ entry.tryAcquire opts now = (⟨entry.state, false⟩, entry)) := by
  cases hs : entry.state with
  | closed => exact .inr (.inl ⟨rfl, by simp [BreakerEntry.tryAcquire, BreakerEntry.thaw, hs]⟩)
  | «open» =>
      by_cases hc : opts.cooldownMs ≤ now - entry.openedAt
      · exact .inl ⟨rfl, hc, by simp [BreakerEntry.tryAcquire, BreakerEntry.thaw, hs, hc]⟩
      · exact .inr (.inr ⟨by simp, by simp [BreakerEntry.tryAcquire, BreakerEntry.thaw, hs, hc]⟩)
  | halfOpen =>
      have hprobe := (h.probing hs).1
      exact .inr (.inr ⟨by simp, by
        simp [BreakerEntry.tryAcquire, BreakerEntry.thaw, hs, hprobe]⟩)

/-- A healthy answer closes a circuit. -/
theorem record_healthy {now : Millis} {status : RsStatus} {entry : BreakerEntry}
    (h : status.healthy = true) : (entry.record opts now status).state = .closed := by
  simp [BreakerEntry.record, h, BreakerEntry.recordSuccess]

/-- A failure opens a half-open circuit. -/
theorem record_failed_halfOpen {now : Millis} {status : RsStatus} {entry : BreakerEntry}
    (h : status.healthy = false) (hs : entry.state = .halfOpen) :
    (entry.record opts now status).state = .open := by
  simp [BreakerEntry.record, h, BreakerEntry.recordFailure, hs]

/-- No answer leaves a circuit half-open. -/
theorem record_ne_halfOpen {now : Millis} {status : RsStatus} {entry : BreakerEntry} :
    (entry.record opts now status).state ≠ .halfOpen := by
  unfold BreakerEntry.record BreakerEntry.recordFailure
  split
  · simp [BreakerEntry.recordSuccess]
  · dsimp only
    split
    · simp
    · rename_i hn
      exact fun hs => hn (.inl hs)

/-- A failure leaves an open circuit open. -/
theorem record_failed_open {now : Millis} {status : RsStatus} {entry : BreakerEntry}
    {probes : List Nat} (ht : Tracked opts entry probes) (h : status.healthy = false)
    (hs : entry.state = .open) : (entry.record opts now status).state = .open := by
  have hfailing := ht.failing (by simp [hs])
  have hle : opts.failureThreshold ≤ entry.consecutiveFailures + 1 := by omega
  simp [BreakerEntry.record, h, BreakerEntry.recordFailure, hle]

/-- A circuit that an answer does not leave closed has seen its failures. -/
theorem record_failing {now : Millis} {status : RsStatus} {entry : BreakerEntry}
    {probes : List Nat} (ht : Tracked opts entry probes)
    (ho : (entry.record opts now status).state ≠ .closed) :
    opts.failureThreshold ≤ (entry.record opts now status).consecutiveFailures := by
  unfold BreakerEntry.record BreakerEntry.recordFailure at ho ⊢
  split
  · rename_i hh
    simp [hh, BreakerEntry.recordSuccess] at ho
  · rename_i hh
    rw [if_neg hh] at ho
    dsimp only at ho ⊢
    split
    · rename_i hfail
      rcases hfail with hs | hle
      · have hfailing := ht.failing (by simp [hs])
        dsimp only
        omega
      · exact hle
    · rename_i hn
      rw [if_neg hn] at ho
      have hfailing := ht.failing ho
      dsimp only
      omega

/-- An answer leaves a circuit tracked, when nobody is left that probes it. -/
theorem Tracked.record {now : Millis} {status : RsStatus} {entry : BreakerEntry}
    {probes : List Nat} (h : Tracked opts entry probes) :
    Tracked opts (entry.record opts now status) [] :=
  ⟨fun hs => absurd hs record_ne_halfOpen, fun _ => rfl, record_failing h⟩

/-! ## The circuits of a client -/

/-- Which endpoints have a circuit never changes. -/
theorem get_isSome (b b' : Breaker) (endpoint : WalletEndpoint) :
    (b.get endpoint).isSome = (b'.get endpoint).isSome := by
  cases endpoint <;> rfl

theorem get_set_self {b : Breaker} {endpoint : WalletEndpoint} {entry entry' : BreakerEntry}
    (h : b.get endpoint = some entry) : (b.set endpoint entry').get endpoint = some entry' := by
  cases endpoint <;> first | rfl | cases h

theorem get_set_of_ne {b : Breaker} {endpoint endpoint' : WalletEndpoint} {entry : BreakerEntry}
    (h : endpoint' ≠ endpoint) : (b.set endpoint entry).get endpoint' = b.get endpoint' := by
  cases endpoint <;> cases endpoint' <;> first | rfl | exact absurd rfl h

/-- Every circuit of a client is tracked. -/
def Circuits (opts : BreakerOptions) (w : World) : Prop :=
  ∀ endpoint entry, w.breaker.get endpoint = some entry → Tracked opts entry (w.probes endpoint)

/-- What is outstanding of a call. -/
def Idle (i : Nat) (w : World) : Prop := ∀ x ∈ w.outstanding, x.caller ≠ i

/-- **What one action of call `i` does**: nothing, as long as nothing is outstanding of it, or it
asks, or it reports. -/
inductive Act (opts : BreakerOptions) (i : Nat) (status : RsStatus) (w : World) : World → Prop
  | nothing (h : Idle i w) : Act opts i status w w
  | acquire (endpoint : WalletEndpoint) (entry : BreakerEntry)
      (hb : w.breaker.get endpoint = some entry) (h : Idle i w) :
      Act opts i status w (w.acquire opts i endpoint entry)
  | report (x : Admission) (entry : BreakerEntry) (hx : x ∈ w.outstanding) (hi : x.caller = i)
      (hb : w.breaker.get x.endpoint = some entry) :
      Act opts i status w (w.report opts i x.endpoint entry status)

/-- What a call has come to. -/
inductive Stage (opts : BreakerOptions) (w : World) (i : Nat) :
    Task World RsStatus WalletEndpoint → Prop
  | asking (endpoint : WalletEndpoint) (h : Idle i w) : Stage opts w i ⟨endpoint, invoke opts endpoint⟩
  | waiting (endpoint : WalletEndpoint) (x : Admission) (hx : x ∈ w.outstanding) (hi : x.caller = i)
      (he : x.endpoint = endpoint) (hb : (w.breaker.get endpoint).isSome = true) :
      Stage opts w i ⟨endpoint, answer opts endpoint⟩
  | free (endpoint : WalletEndpoint) (h : Idle i w) (hb : w.breaker.get endpoint = none) :
      Stage opts w i ⟨endpoint, answer opts endpoint⟩
  | ended (endpoint : WalletEndpoint) : Stage opts w i ⟨endpoint, .ret ()⟩

/-- **The calls of a client are in order**: each is at a stage of its own, and none is let through
twice. -/
structure Ordered (opts : BreakerOptions) (p : State) : Prop where
  stage : ∀ i t, p.tasks[i]? = some t → Stage opts p.world i t
  made : ∀ x ∈ p.world.outstanding, x.caller < p.tasks.length
  sole : (p.world.outstanding.map Admission.caller).Nodup

/-- The stage of a call depends on what is outstanding of it. -/
theorem Stage.frame {j : Nat} {t : Task World RsStatus WalletEndpoint} (h : Stage opts w j t)
    (hout : ∀ x : Admission, x.caller = j → (x ∈ w'.outstanding ↔ x ∈ w.outstanding)) :
    Stage opts w' j t := by
  have hidle : Idle j w → Idle j w' := fun hj x hx hc => hj x ((hout x hc).mp hx) hc
  cases h with
  | asking endpoint hj => exact .asking endpoint (hidle hj)
  | waiting endpoint x hx hi he hb =>
      exact .waiting endpoint x ((hout x hi).mpr hx) hi he
        ((get_isSome w'.breaker w.breaker endpoint).trans hb)
  | free endpoint hj hb =>
      refine .free endpoint (hidle hj) ?_
      have hnone := get_isSome w'.breaker w.breaker endpoint
      rw [hb] at hnone
      exact Option.not_isSome_iff_eq_none.mp (by simp [hnone])
  | ended endpoint => exact .ended endpoint

/-- Asking lets through nobody but the call itself. -/
theorem mem_acquire {endpoint : WalletEndpoint} {entry : BreakerEntry} {x : Admission}
    (hx : x.caller ≠ i) :
    x ∈ (w.acquire opts i endpoint entry).outstanding ↔ x ∈ w.outstanding := by
  simp only [World.acquire]
  split
  · rw [List.mem_append, List.mem_singleton]
    exact or_iff_left fun h => hx (congrArg Admission.caller h)
  · rfl

/-- A report ends what is outstanding of the call itself. -/
theorem mem_report {endpoint : WalletEndpoint} {entry : BreakerEntry} {status : RsStatus}
    {x : Admission} :
    x ∈ (w.report opts i endpoint entry status).outstanding ↔ x ∈ w.outstanding ∧ x.caller ≠ i := by
  simp [World.report]

/-- A call that is let through is outstanding. -/
theorem acquire_outstanding {endpoint : WalletEndpoint} {entry : BreakerEntry}
    (h : (entry.tryAcquire opts w.now).1.allow = true) :
    (w.acquire opts i endpoint entry).outstanding =
      w.outstanding ++ [⟨i, endpoint, (entry.tryAcquire opts w.now).1.state⟩] := by
  simp [World.acquire, h]

theorem acquire_outstanding_of_not {endpoint : WalletEndpoint} {entry : BreakerEntry}
    (h : (entry.tryAcquire opts w.now).1.allow = false) :
    (w.acquire opts i endpoint entry).outstanding = w.outstanding := by
  simp [World.acquire, h]

/-- One action of call `i` keeps the calls in order, when the call itself comes to a stage. -/
theorem Ordered.act {status : RsStatus} {prog : Action Unit} {endpoint : WalletEndpoint}
    (h : Ordered opts p) (hlt : i < p.tasks.length) (ha : Act opts i status p.world w)
    (hstage : Stage opts w i ⟨endpoint, prog⟩) : Ordered opts ⟨w, p.tasks.set i ⟨endpoint, prog⟩⟩ := by
  refine ⟨fun j t hj => ?_, fun x hx => ?_, ?_⟩
  · rcases Table.getElem?_set_cases hj with ⟨rfl, rfl, -⟩ | ⟨hne, hj⟩
    · exact hstage
    · refine (h.stage j t hj).frame fun x hx => ?_
      have hxi : x.caller ≠ i := fun hi => hne (hx.symm.trans hi)
      cases ha with
      | nothing hi => rfl
      | acquire endpoint entry hb hi => exact mem_acquire hxi
      | report y entry hy hi hb => exact mem_report.trans (and_iff_left hxi)
  · rw [List.length_set]
    by_cases hxi : x.caller = i
    · exact hxi ▸ hlt
    · refine h.made x ?_
      cases ha with
      | nothing hi => exact hx
      | acquire endpoint entry hb hi => exact (mem_acquire hxi).mp hx
      | report y entry hy hi hb => exact (mem_report.mp hx).1
  · cases ha with
    | nothing hi => exact h.sole
    | acquire endpoint entry hb hi =>
        cases hallow : (entry.tryAcquire opts p.world.now).1.allow with
        | false =>
            rw [acquire_outstanding_of_not hallow]
            exact h.sole
        | true =>
            rw [acquire_outstanding hallow]
            exact Table.nodup_map_concat h.sole hi
    | report y entry hy hi hb =>
        exact h.sole.sublist (List.filter_sublist.map _)

/-- The first action of a call asks. -/
theorem invoke_eq (endpoint : WalletEndpoint) :
    invoke opts endpoint = .act (fun i _ w => some (match w.breaker.get endpoint with
      | none => (⟨.closed, true⟩, w)
      | some entry => ((entry.tryAcquire opts w.now).1, w.acquire opts i endpoint entry)))
      fun decision => if !decision.allow then .ret () else answer opts endpoint := rfl

/-- The second one reports. -/
theorem answer_eq (endpoint : WalletEndpoint) :
    answer opts endpoint = .act (fun i status w => match w.breaker.get endpoint with
      | none => some ((), w)
      | some entry => some ((), w.report opts i endpoint entry status)) .ret := rfl

/-- **What one action of a call does**, and that the calls stay in order. -/
theorem Ordered.run {status : RsStatus} (h : Ordered opts p)
    (hs : (client opts).step p (.run i status) = some q) :
    Act opts i status p.world q.world ∧ Ordered opts q := by
  simp only [System.step, System.runTask] at hs
  cases ht : p.tasks[i]? with
  | none => simp [ht] at hs
  | some t =>
      have hlt : i < p.tasks.length := (List.getElem?_eq_some_iff.mp ht).1
      have hst := h.stage i t ht
      rw [ht] at hs
      cases hst with
      | asking endpoint hidle =>
          simp only [invoke_eq, Option.map_some, Option.some.injEq] at hs
          subst hs
          cases hb : p.world.breaker.get endpoint with
          | none =>
              have ha : Act opts i status p.world p.world := .nothing hidle
              exact ⟨ha, h.act hlt ha (.free endpoint hidle hb)⟩
          | some entry =>
              have ha : Act opts i status p.world (p.world.acquire opts i endpoint entry) :=
                .acquire endpoint entry hb hidle
              refine ⟨ha, h.act hlt ha ?_⟩
              cases hallow : (entry.tryAcquire opts p.world.now).1.allow with
              | false => exact .ended endpoint
              | true =>
                  refine .waiting endpoint
                    ⟨i, endpoint, (entry.tryAcquire opts p.world.now).1.state⟩ ?_ rfl rfl ?_
                  · rw [acquire_outstanding hallow]
                    exact List.mem_append_right _ (List.mem_singleton_self _)
                  · rw [get_isSome _ p.world.breaker, hb]
                    rfl
      | waiting endpoint x hx hi he hsome =>
          obtain ⟨entry, hb⟩ := Option.isSome_iff_exists.mp hsome
          simp only [answer_eq, hb, Option.map_some, Option.some.injEq] at hs
          subst hs he
          have ha : Act opts i status p.world (p.world.report opts i x.endpoint entry status) :=
            .report x entry hx hi hb
          exact ⟨ha, h.act hlt ha (.ended _)⟩
      | free endpoint hidle hb =>
          simp only [answer_eq, hb, Option.map_some, Option.some.injEq] at hs
          subst hs
          have ha : Act opts i status p.world p.world := .nothing hidle
          exact ⟨ha, h.act hlt ha (.ended endpoint)⟩
      | ended endpoint => cases hs

/-- A new call has nothing outstanding. -/
theorem Ordered.idle_length (h : Ordered opts p) : Idle p.tasks.length p.world := fun x hx hi => by
  have hlt := h.made x hx
  omega

/-- **The calls stay in order**, whatever happens. -/
theorem Ordered.step {e : Happening} (h : Ordered opts p) (hs : (client opts).step p e = some q) :
    Ordered opts q := by
  cases e with
  | run i status => exact (h.run hs).2
  | call endpoint =>
      obtain rfl : (⟨p.world, p.tasks ++ [⟨endpoint, invoke opts endpoint⟩]⟩ : State) = q := by
        simpa [System.step, client] using hs
      refine ⟨fun j t hj => ?_, fun x hx => ?_, h.sole⟩
      · rcases Table.getElem?_concat_cases hj with hj | ⟨rfl, rfl⟩
        · exact h.stage j t hj
        · exact .asking endpoint h.idle_length
      · have hlt := h.made x hx
        simp only [List.length_append, List.length_singleton]
        omega
  | kill i =>
      obtain rfl : (⟨p.world, p.tasks.modify i Task.cut⟩ : State) = q := by
        simpa [System.step] using hs
      refine ⟨fun j t hj => ?_, fun x hx => by simpa using h.made x hx, h.sole⟩
      rw [List.getElem?_modify] at hj
      obtain ⟨t', ht', rfl⟩ := Option.map_eq_some_iff.mp hj
      split
      · exact .ended _
      · exact h.stage j t' ht'
  | env ms =>
      obtain rfl : _ = q := by simpa [System.step, client] using hs
      refine ⟨fun j t hj => ?_, fun x hx => by simpa using h.made x hx, h.sole⟩
      exact (h.stage j t (by simpa using hj)).frame fun _ _ => Iff.rfl

/-! ## What a step does to the probes -/

theorem mem_probes {endpoint : WalletEndpoint} :
    i ∈ w.probes endpoint ↔ ∃ x ∈ w.outstanding, x.caller = i ∧ x.endpoint = endpoint ∧
      x.state = .halfOpen := by
  simp only [World.probes, List.mem_map, List.mem_filter, decide_eq_true_eq]
  constructor
  · rintro ⟨x, ⟨hx, he, hs⟩, hi⟩
    exact ⟨x, hx, hi, he, hs⟩
  · rintro ⟨x, hx, hi, he, hs⟩
    exact ⟨x, ⟨hx, he, hs⟩, hi⟩

/-- A call is outstanding at most once. -/
theorem Ordered.unique (h : Ordered opts p) {x y : Admission} (hx : x ∈ p.world.outstanding)
    (hy : y ∈ p.world.outstanding) (hc : x.caller = y.caller) : x = y :=
  List.inj_on_of_nodup_map h.sole hx hy hc

/-- Asking at one endpoint makes no probe of another. -/
theorem probes_acquire_of_ne {endpoint endpoint' : WalletEndpoint} {entry : BreakerEntry}
    (hne : endpoint' ≠ endpoint) :
    (w.acquire opts i endpoint entry).probes endpoint' = w.probes endpoint' := by
  simp only [World.acquire, World.probes]
  split
  · simp [List.filter_append, Ne.symm hne]
  · rfl

/-- A call that is let through is a probe when it was told that the circuit is half-open. -/
theorem probes_acquire_self {endpoint : WalletEndpoint} {entry entry' : BreakerEntry}
    {decision : BreakerDecision} (h : entry.tryAcquire opts w.now = (decision, entry')) :
    (w.acquire opts i endpoint entry).probes endpoint = w.probes endpoint ++
      if decision.allow = true ∧ decision.state = .halfOpen then [i] else [] := by
  simp only [World.acquire, World.probes, h]
  cases hallow : decision.allow with
  | false => simp
  | true =>
      by_cases hs : decision.state = .halfOpen
      · simp [List.filter_append, hs]
      · simp [List.filter_append, hs]

/-- The circuit of the endpoint after asking. -/
theorem get_acquire_self {endpoint : WalletEndpoint} {entry entry' : BreakerEntry}
    {decision : BreakerDecision} (hb : w.breaker.get endpoint = some entry)
    (h : entry.tryAcquire opts w.now = (decision, entry')) :
    (w.acquire opts i endpoint entry).breaker.get endpoint = some entry' := by
  simp only [World.acquire, h]
  exact get_set_self hb

/-- A report ends the probe of the call itself. -/
theorem probes_report {endpoint endpoint' : WalletEndpoint} {entry : BreakerEntry}
    {status : RsStatus} :
    (w.report opts i endpoint entry status).probes endpoint' =
      (w.probes endpoint').filter (· ≠ i) := by
  simp only [World.report, World.probes, List.filter_map, List.filter_filter]
  congr 1
  refine List.filter_congr fun x _ => ?_
  simp only [Function.comp_apply, Bool.and_comm]

/-- A report of a call that is no probe of the endpoint leaves its probes. -/
theorem probes_report_of_not_mem {endpoint endpoint' : WalletEndpoint} {entry : BreakerEntry}
    {status : RsStatus} (h : i ∉ w.probes endpoint') :
    (w.report opts i endpoint entry status).probes endpoint' = w.probes endpoint' := by
  rw [probes_report, List.filter_eq_self]
  intro j hj
  simpa using fun hji : j = i => h (hji ▸ hj)

/-! ## One step -/

/-- A step that leaves the circuits and the admissions alone. -/
theorem quiet {e : Happening} (hc : Circuits opts p.world)
    (hb : q.world.breaker = p.world.breaker) (ho : q.world.outstanding = p.world.outstanding) :
    Protocol opts p e q ∧ Circuits opts q.world := by
  have hprobes : ∀ endpoint, q.world.probes endpoint = p.world.probes endpoint := fun endpoint => by
    simp only [World.probes, ho]
  refine ⟨⟨fun endpoint entry he => ?_, fun endpoint entry entry' he he' hs hne => ?_,
    fun endpoint entry entry' he he' hs hne => ?_⟩, fun endpoint entry he => ?_⟩
  · rw [hprobes]
    exact (hc endpoint entry (hb ▸ he)).length_le
  · rw [hb, he] at he'
    exact absurd (Option.some.inj he' ▸ hs) hne
  · rw [hb, he] at he'
    exact absurd (Option.some.inj he' ▸ hs) hne
  · rw [hprobes]
    exact hc endpoint entry (hb ▸ he)

/-- A step of the circuit of one endpoint follows the protocol when it does there: the circuits of
the other endpoints are left alone. -/
theorem Protocol.of_endpoint {e : Happening} {endpoint : WalletEndpoint} {entry entry' : BreakerEntry}
    (hc : Circuits opts p.world) (hb : p.world.breaker.get endpoint = some entry)
    (hb' : q.world.breaker.get endpoint = some entry')
    (hothers : ∀ endpoint', endpoint' ≠ endpoint →
      q.world.breaker.get endpoint' = p.world.breaker.get endpoint' ∧
        q.world.probes endpoint' = p.world.probes endpoint')
    (ht : Tracked opts entry' (q.world.probes endpoint))
    (hopened : entry.state = .open → entry'.state ≠ .open → entry'.state = .halfOpen ∧
      opts.cooldownMs ≤ p.world.now - entry.openedAt ∧ (q.world.probes endpoint).length = 1)
    (hprobing : entry.state = .halfOpen → entry'.state ≠ .halfOpen → ∃ i status,
      e = .run i status ∧ p.world.probes endpoint = [i] ∧ q.world.probes endpoint = []) :
    Protocol opts p e q ∧ Circuits opts q.world := by
  have htracked : Circuits opts q.world := by
    intro endpoint' x hx
    by_cases he : endpoint' = endpoint
    · subst he
      rw [hb'] at hx
      exact Option.some.inj hx ▸ ht
    · obtain ⟨hget, hprobes⟩ := hothers endpoint' he
      rw [hprobes]
      exact hc endpoint' x (hget ▸ hx)
  refine ⟨⟨fun endpoint' x hx => (htracked endpoint' x hx).length_le,
    fun endpoint' x x' hx hx' hs hne => ?_, fun endpoint' x x' hx hx' hs hne => ?_⟩, htracked⟩
  all_goals
    by_cases he : endpoint' = endpoint
    · subst he
      rw [hb] at hx
      rw [hb'] at hx'
      obtain rfl := Option.some.inj hx
      obtain rfl := Option.some.inj hx'
      first | exact hopened hs hne | exact hprobing hs hne
    · rw [(hothers endpoint' he).1, hx] at hx'
      exact absurd (Option.some.inj hx' ▸ hs) hne

/-- **Asking follows the protocol.** -/
theorem acquire_protocol (status : RsStatus) {endpoint : WalletEndpoint} {entry : BreakerEntry}
    (hc : Circuits opts p.world) (hb : p.world.breaker.get endpoint = some entry)
    (hq : q.world = p.world.acquire opts i endpoint entry) :
    Protocol opts p (.run i status) q ∧ Circuits opts q.world := by
  have ht := hc endpoint entry hb
  have hothers : ∀ endpoint', endpoint' ≠ endpoint →
      q.world.breaker.get endpoint' = p.world.breaker.get endpoint' ∧
        q.world.probes endpoint' = p.world.probes endpoint' := fun endpoint' hne => by
    rw [hq]
    exact ⟨get_set_of_ne hne, probes_acquire_of_ne hne⟩
  rcases tryAcquire_cases p.world.now ht with ⟨hs, hcool, hacq⟩ | ⟨hs, hacq⟩ | ⟨hs, hacq⟩
  · -- the cooldown has elapsed, and the call is the probe
    have hprobes : q.world.probes endpoint = [i] := by
      rw [hq, probes_acquire_self hacq, ht.idle (by simp [hs])]
      rfl
    refine Protocol.of_endpoint hc hb (hq ▸ get_acquire_self hb hacq) hothers ?_ (fun _ _ => ?_)
      fun hs' _ => ?_
    · rw [hprobes]
      exact ⟨fun _ => ⟨rfl, i, rfl⟩, fun h => absurd rfl h, fun _ => ht.failing (by simp [hs])⟩
    · exact ⟨rfl, hcool, by rw [hprobes]; rfl⟩
    · rw [hs] at hs'
      cases hs'
  · have hprobes : q.world.probes endpoint = p.world.probes endpoint := by
      rw [hq, probes_acquire_self hacq]
      simp
    exact Protocol.of_endpoint hc hb (hq ▸ get_acquire_self hb hacq) hothers (hprobes ▸ ht)
      (fun hs' hne => absurd hs' hne) fun hs' hne => absurd hs' hne
  · have hprobes : q.world.probes endpoint = p.world.probes endpoint := by
      rw [hq, probes_acquire_self hacq]
      simp
    exact Protocol.of_endpoint hc hb (hq ▸ get_acquire_self hb hacq) hothers (hprobes ▸ ht)
      (fun hs' hne => absurd hs' hne) fun hs' hne => absurd hs' hne

/-- **A report follows the protocol exactly when it is on time.** -/
theorem report_protocol {status : RsStatus} {x : Admission} {entry : BreakerEntry}
    (h : Ordered opts p) (hc : Circuits opts p.world) (hx : x ∈ p.world.outstanding)
    (hi : x.caller = i) (hb : p.world.breaker.get x.endpoint = some entry)
    (hq : q.world = p.world.report opts i x.endpoint entry status) :
    (Protocol opts p (.run i status) q ↔ OnTime p (.run i status) q) ∧
      (OnTime p (.run i status) q → Circuits opts q.world) := by
  have ht := hc x.endpoint entry hb
  have hmem : ∀ {endpoint}, i ∈ p.world.probes endpoint →
      x.endpoint = endpoint ∧ x.state = .halfOpen := fun hin => by
    obtain ⟨y, hy, hyi, he, hs⟩ := mem_probes.mp hin
    obtain rfl := h.unique hx hy (hi.trans hyi.symm)
    exact ⟨he, hs⟩
  have hget : q.world.breaker.get x.endpoint = some (entry.record opts p.world.now status) := by
    rw [hq]
    exact get_set_self hb
  have hothers : ∀ endpoint', endpoint' ≠ x.endpoint →
      q.world.breaker.get endpoint' = p.world.breaker.get endpoint' ∧
        q.world.probes endpoint' = p.world.probes endpoint' := fun endpoint' hne => by
    rw [hq]
    exact ⟨get_set_of_ne hne, probes_report_of_not_mem fun hin => hne (hmem hin).1.symm⟩
  -- a report that is on time comes from the probe of a half-open circuit, or finds no probe
  have hontime : OnTime p (.run i status) q ↔ (x.state ≠ .halfOpen → entry.state = .closed ∨
      (entry.state = .open ∧ status.healthy = false)) := by
    constructor
    · exact fun ho hs => ho x hx hi hs entry hb
    · intro ho y hy hyi hys entry' hb'
      obtain rfl := h.unique hx hy (hi.trans hyi.symm)
      rw [hb] at hb'
      exact Option.some.inj hb' ▸ ho hys
  rw [hontime]
  by_cases hs : entry.state = .halfOpen
  · obtain ⟨-, j, hj⟩ := ht.probing hs
    by_cases hprobe : x.state = .halfOpen
    · -- the probe itself
      have hij : i ∈ p.world.probes x.endpoint := mem_probes.mpr ⟨x, hx, hi, rfl, hprobe⟩
      rw [hj, List.mem_singleton] at hij
      subst hij
      have hnone : q.world.probes x.endpoint = [] := by
        rw [hq, probes_report, hj]
        simp
      have hok := Protocol.of_endpoint (e := .run i status) hc hb hget hothers (hnone ▸ ht.record)
        (fun hopen => by rw [hs] at hopen; cases hopen) fun _ _ => ⟨i, status, rfl, hj, hnone⟩
      exact ⟨iff_of_true hok.1 fun hn => absurd hprobe hn, fun _ => hok.2⟩
    · -- a call that is no probe ends the probing
      have hlate : ¬ (x.state ≠ .halfOpen → entry.state = .closed ∨
          (entry.state = .open ∧ status.healthy = false)) := fun ho => by
        rcases ho hprobe with hs' | ⟨hs', -⟩ <;> rw [hs] at hs' <;> cases hs'
      refine ⟨iff_of_false (fun hprot => ?_) hlate, fun ho => absurd ho hlate⟩
      obtain ⟨i', status', he, hprobes, -⟩ :=
        hprot.probing x.endpoint entry _ hb hget hs record_ne_halfOpen
      obtain ⟨rfl, -⟩ : i = i' ∧ status = status' := by simpa using he
      exact hprobe (hmem (hprobes ▸ List.mem_singleton_self i)).2
  · have hno : p.world.probes x.endpoint = [] := ht.idle hs
    have hprobe : x.state ≠ .halfOpen := fun hx' => by
      have hin := mem_probes.mpr ⟨x, hx, hi, rfl, hx'⟩
      rw [hno] at hin
      cases hin
    have hnone : q.world.probes x.endpoint = [] := by
      rw [hq, probes_report, hno]
      rfl
    by_cases hlate : entry.state = .open ∧ status.healthy = true
    · -- an open circuit is closed before its cooldown
      obtain ⟨hopen, hhealthy⟩ := hlate
      have hclosed : (entry.record opts p.world.now status).state = .closed :=
        record_healthy hhealthy
      have hlate : ¬ (x.state ≠ .halfOpen → entry.state = .closed ∨
          (entry.state = .open ∧ status.healthy = false)) := fun ho => by
        rcases ho hprobe with hs' | ⟨-, hs'⟩
        · rw [hopen] at hs'
          cases hs'
        · rw [hhealthy] at hs'
          cases hs'
      refine ⟨iff_of_false (fun hprot => ?_) hlate, fun ho => absurd ho hlate⟩
      have hleft := (hprot.opened x.endpoint entry _ hb hget hopen (by rw [hclosed]; simp)).1
      rw [hclosed] at hleft
      cases hleft
    · have hopen : entry.state = .open → status.healthy = false := fun ho => by
        cases hh : status.healthy with
        | false => rfl
        | true => exact absurd ⟨ho, hh⟩ hlate
      have hok := Protocol.of_endpoint (e := .run i status) hc hb hget hothers (hnone ▸ ht.record)
        (fun ho hne => absurd (record_failed_open ht (hopen ho) ho) hne)
        fun hs' _ => absurd hs' hs
      refine ⟨iff_of_true hok.1 fun _ => ?_, fun _ => hok.2⟩
      cases hst : entry.state with
      | closed => exact .inl rfl
      | «open» => exact .inr ⟨rfl, hopen hst⟩
      | halfOpen => exact absurd hst hs

/-- **One step follows the protocol exactly when its report is on time**, and then every circuit stays
tracked. -/
theorem step_protocol {e : Happening} (h : Ordered opts p) (hc : Circuits opts p.world)
    (hs : (client opts).step p e = some q) :
    (Protocol opts p e q ↔ OnTime p e q) ∧ (OnTime p e q → Circuits opts q.world) := by
  have hquiet : q.world.breaker = p.world.breaker → q.world.outstanding = p.world.outstanding →
      OnTime p e q →
        (Protocol opts p e q ↔ OnTime p e q) ∧ (OnTime p e q → Circuits opts q.world) :=
    fun hb ho hontime =>
      have hok := quiet (e := e) hc hb ho
      ⟨iff_of_true hok.1 hontime, fun _ => hok.2⟩
  have hidle : ∀ {i status}, e = .run i status → Idle i p.world → OnTime p e q := by
    rintro i status rfl hi x hx hxi
    exact absurd hxi (hi x hx)
  cases e with
  | run i status =>
      have hact := (h.run hs).1
      obtain ⟨w, hw⟩ : ∃ w, q.world = w := ⟨_, rfl⟩
      rw [hw] at hact
      cases hact with
      | nothing hi => exact hquiet (by rw [hw]) (by rw [hw]) (hidle rfl hi)
      | acquire endpoint entry hb hi =>
          have hok := acquire_protocol status hc hb hw
          exact ⟨iff_of_true hok.1 (hidle rfl hi), fun _ => hok.2⟩
      | report x entry hx hi hb => exact report_protocol h hc hx hi hb hw
  | call endpoint =>
      obtain rfl : (⟨p.world, p.tasks ++ [⟨endpoint, invoke opts endpoint⟩]⟩ : State) = q := by
        simpa [System.step, client] using hs
      exact hquiet rfl rfl trivial
  | kill i =>
      obtain rfl : (⟨p.world, p.tasks.modify i Task.cut⟩ : State) = q := by
        simpa [System.step] using hs
      exact hquiet rfl rfl trivial
  | env ms =>
      obtain rfl : _ = q := by simpa [System.step, client] using hs
      exact hquiet rfl rfl trivial

/-! ## Runs -/

/-- A client that nobody has used yet is in order, with every circuit closed. -/
theorem initial_ordered : Ordered opts initial ∧ Circuits opts initial.world := by
  refine ⟨⟨fun i t ht => by simp [initial] at ht, (fun x hx => nomatch hx), List.nodup_nil⟩,
    fun endpoint entry he => ?_⟩
  obtain rfl : entry = .fresh := by
    cases endpoint <;> simp_all [initial, Breaker.get, Breaker.fresh]
  exact ⟨(fun hs => nomatch hs), fun _ => rfl, fun hs => absurd rfl hs⟩

open Classical in
/-- **The protocol of a circuit breaker**: for every threshold and cooldown, and for every list of
events of any number of concurrent calls, every step follows the protocol exactly when every call
that was not let through as a probe reports while its circuit is closed, or reports a failure to an
open one. -/
theorem protocol_iff (opts : BreakerOptions) (es : List Happening) :
    (client opts).exec (Protocol opts) initial es = (client opts).exec OnTime initial es :=
  System.exec_congr (I := fun p => Ordered opts p ∧ Circuits opts p.world) es initial_ordered
    fun ⟨h, hc⟩ hs => ⟨(step_protocol h hc hs).1, fun ho => ⟨h.step hs, (step_protocol h hc hs).2 ho⟩⟩

namespace Sample

/-- Six stakes are let through while the circuit is closed, and five of them time out. -/
def opened : List Happening :=
  List.replicate 6 (.call .bet) ++ (List.range 6).map (.run · .ok) ++
    (List.range 5).map (.run · .timeout)

end Sample

/-- **A late success closes an open circuit at once**: the sixth stake was let through with the other
five. -/
theorem late_success_closes : ∃ p q, (client .default).Run Anything initial p ∧
    (client .default).step p (.run 5 .ok) = some q ∧
      ¬ Protocol .default p (.run 5 .ok) q := by
  have h : (((client .default).exec Anything initial Sample.opened).bind fun p =>
      ((client .default).step p (.run 5 .ok)).map fun q =>
        (p.world.breaker.bet, q.world.breaker.bet)) =
          some (⟨.open, 5, 0, false⟩, ⟨.closed, 0, 0, false⟩) := by
    decide +kernel
  obtain ⟨p, hp, hq⟩ := Option.bind_eq_some_iff.mp h
  obtain ⟨q, hq, hv⟩ := Option.map_eq_some_iff.mp hq
  obtain ⟨hopen, hclosed⟩ := Prod.mk.inj hv
  refine ⟨p, q, .of_exec hp, hq, fun hprot => ?_⟩
  have hleft := (hprot.opened .bet p.world.breaker.bet q.world.breaker.bet rfl rfl
    (by rw [hopen]) (by rw [hclosed]; simp)).1
  rw [hclosed] at hleft
  cases hleft

end YantraRgs.CircuitBreaker
