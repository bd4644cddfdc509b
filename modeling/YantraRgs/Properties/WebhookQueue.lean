import YantraRgs.Services.WebhookDispatcher

/-! # No webhook is lost

A delivery that is claimed is in flight until its attempt notes what came of it, and the runner takes
up no delivery that is in flight. So an attempt that is cut off, by an exception or because its
process stops, leaves its delivery in flight for good, unless another attempt is under way that
claimed the same delivery.

* **`NoneLost`** — the property of one step.
* **`AttemptsGoOn`** — the condition on one step.
* **`Harmless`** — what every action does to the deliveries, but for a claim.
* **`none_lost_iff`** — the two agree along every list of events. -/

namespace YantraRgs.Webhooks

open Await

variable {hmac : String → Text → String} {members : MemberOrder} {p q : State} {w w' : World}
  {i j id : Nat} {d d' : Delivery}

/-- Call `i` is under way, and it claimed the delivery. -/
def Holds (p : State) (i id : Nat) : Prop :=
  (i, id) ∈ p.world.claims ∧ ∃ t, p.tasks[i]? = some t ∧ t.prog.ended = false

/-- A delivery is being worked on. -/
def Working (p : State) (id : Nat) : Prop := ∃ i, Holds p i id

/-- A delivery has come to its end, or a later poll takes it up. -/
def Delivery.Fine (d : Delivery) : Prop :=
  d.state = .succeeded ∨ d.state = .deadLettered ∨
    (d.state.queued = true ∧ d.nextAttemptAt.isSome = true)

/-- **No webhook is lost**: every delivery has come to its end, is worked on, or is taken up later. -/
def NoneLost (_ : State) (_ : Happening) (q : State) : Prop :=
  ∀ id d, q.world.delivery id = some d → d.Fine ∨ Working q id

/-- An event takes a call down. -/
def TakesDown : Happening → Nat → Prop
  | .kill i, j => i = j
  | .env x, _ => x = .restart
  | _, _ => False

instance (e : Happening) (i : Nat) : Decidable (TakesDown e i) := by
  unfold TakesDown
  split <;> infer_instance

/-- **The condition on one step**: where it takes down a call that holds a delivery in flight, another
call goes on that holds the delivery too. -/
def AttemptsGoOn (p : State) (e : Happening) (_ : State) : Prop :=
  ∀ i, TakesDown e i → ∀ id d, p.world.delivery id = some d → d.state = .inFlight → Holds p i id →
    ∃ j, Holds p j id ∧ ¬ TakesDown e j

/-! ## Deliveries -/

/-- A delivery in flight is neither at its end nor taken up later. -/
theorem Delivery.Fine.not_inFlight (h : d.Fine) : d.state ≠ .inFlight := by
  rcases h with h | h | ⟨h, -⟩
  · simp [h]
  · simp [h]
  · intro hs
    simp [hs, DeliveryState.queued] at h

/-- A delivery after an attempt is at its end, or it is tried again. -/
theorem Delivery.fine_attempted (d : Delivery) (attempt : Nat) (answer : HttpAnswer)
    (now : Millis) : (d.attempted attempt answer now).Fine := by
  unfold Delivery.attempted
  split
  · exact .inl rfl
  · by_cases hexceeded : MAX_ATTEMPTS ≤ attempt
    · exact .inr (.inl (by simp [hexceeded]))
    · exact .inr (.inr (by simp [hexceeded, DeliveryState.queued]))

@[simp] theorem Delivery.attempted_subscriptionId (d : Delivery) (attempt : Nat)
    (answer : HttpAnswer) (now : Millis) :
    (d.attempted attempt answer now).subscriptionId = d.subscriptionId := by
  unfold Delivery.attempted
  split <;> rfl

/-- A delivery that was replayed is tried again. -/
theorem Delivery.fine_replayed (d : Delivery) (now : Millis) : (d.replayed now).Fine :=
  .inr (.inr ⟨rfl, rfl⟩)

/-! ## The tables -/

theorem delivery_eq_some : w.delivery id = some d ↔ w.deliveries[id]? = some (some d) :=
  Option.join_eq_some_iff

theorem subscription_eq_some {sub : Subscription} :
    w.subscription id = some sub ↔ w.subscriptions[id]? = some (some sub) :=
  Option.join_eq_some_iff

/-- A row of the table in which one was replaced. -/
theorem delivery_set_cases {n : Nat} {x : Delivery}
    (h : (w.setDelivery n x).delivery id = some d) :
    (id = n ∧ d = x) ∨ (id ≠ n ∧ w.delivery id = some d) := by
  rcases Table.getElem?_set_cases (delivery_eq_some.mp h) with ⟨hid, hd, -⟩ | ⟨hid, hd⟩
  · exact .inl ⟨hid, Option.some.inj hd⟩
  · exact .inr ⟨hid, delivery_eq_some.mpr hd⟩

/-- A subscription that is changed is still there, and so are the others. -/
theorem subscription_set_isSome {n : Nat} {x : Subscription}
    (h : (w.subscription id).isSome = true) :
    ((w.setSubscription n x).subscription id).isSome = true := by
  obtain ⟨sub, hsub⟩ := Option.isSome_iff_exists.mp h
  have hid := subscription_eq_some.mp hsub
  by_cases hn : id = n
  · subst hn
    exact Option.isSome_iff_exists.mpr
      ⟨x, subscription_eq_some.mpr (Table.getElem?_set_self_of_some hid)⟩
  · exact Option.isSome_iff_exists.mpr
      ⟨sub, subscription_eq_some.mpr ((Table.getElem?_set_of_ne hn).trans hid)⟩

/-- Every delivery has its subscription. -/
def Keyed (w : World) : Prop :=
  ∀ id d, w.delivery id = some d → (w.subscription d.subscriptionId).isSome = true

/-- Every delivery that was there is gone, or it belongs to the same subscription. -/
structure Later (w w' : World) : Prop where
  length : w.deliveries.length ≤ w'.deliveries.length
  same : ∀ id d', id < w.deliveries.length → w'.delivery id = some d' →
    ∃ d, w.delivery id = some d ∧ d.subscriptionId = d'.subscriptionId

/-- **What an action does to the deliveries, but for a claim**: it leaves each one as it was, deletes
it, or leaves it at its end or to be taken up. -/
structure Harmless (w w' : World) : Prop extends Later w w' where
  claims : w'.claims = w.claims
  rows : ∀ id d', w'.delivery id = some d' → d'.Fine ∨ w.delivery id = some d'
  keyed : Keyed w → Keyed w'

/-- The deliveries are the same, and no subscription is deleted. -/
theorem Harmless.of_same (hd : w'.deliveries = w.deliveries) (hc : w'.claims = w.claims)
    (hs : ∀ id, (w.subscription id).isSome = true → (w'.subscription id).isSome = true) :
    Harmless w w' := by
  have hdelivery : ∀ id, w'.delivery id = w.delivery id := fun id => by
    rw [World.delivery, World.delivery, hd]
  refine ⟨⟨by rw [hd], fun id d' _ h => ⟨d', hdelivery id ▸ h, rfl⟩⟩, hc, fun id d' h => ?_,
    fun hk id d h => ?_⟩
  · exact .inr (hdelivery id ▸ h)
  · exact hs _ (hk id d (hdelivery id ▸ h))

theorem Harmless.refl (w : World) : Harmless w w := .of_same rfl rfl fun _ h => h

/-- One delivery is changed. -/
theorem Harmless.setDelivery (hd : w.delivery id = some d)
    (hid : d'.subscriptionId = d.subscriptionId) (hfine : d'.Fine) :
    Harmless w (w.setDelivery id d') := by
  refine ⟨⟨by simp [World.setDelivery], fun n x _ h => ?_⟩, rfl, fun n x h => ?_, fun hk n x h => ?_⟩
  · rcases delivery_set_cases h with ⟨rfl, rfl⟩ | ⟨-, h⟩
    · exact ⟨d, hd, hid.symm⟩
    · exact ⟨x, h, rfl⟩
  · rcases delivery_set_cases h with ⟨rfl, rfl⟩ | ⟨-, h⟩
    · exact .inl hfine
    · exact .inr h
  · rcases delivery_set_cases h with ⟨rfl, rfl⟩ | ⟨-, h⟩
    · rw [hid]
      exact hk n d hd
    · exact hk n x h

theorem Harmless.trans {w'' : World} (h : Harmless w w') (h' : Harmless w' w'') :
    Harmless w w'' := by
  refine ⟨⟨h.length.trans h'.length, fun id d'' hid hd => ?_⟩, h'.claims.trans h.claims,
    fun id d'' hd => ?_, fun hk => h'.keyed (h.keyed hk)⟩
  · obtain ⟨d', hd', he'⟩ := h'.same id d'' (Nat.lt_of_lt_of_le hid h.length) hd
    obtain ⟨d, hd, he⟩ := h.same id d' hid hd'
    exact ⟨d, hd, he.trans he'⟩
  · rcases h'.rows id d'' hd with hfine | hd'
    · exact .inl hfine
    · exact h.rows id d'' hd'

/-- One subscription is changed. -/
theorem Harmless.setSubscription (id : Nat) (sub : Subscription) :
    Harmless w (w.setSubscription id sub) :=
  .of_same rfl rfl fun _ h => subscription_set_isSome h

/-! ## The actions of a call -/

theorem harmless_queueDelivery {input : DispatchEventInput} {eventId : String} {envelope : Value}
    {sub : Nat × Subscription} :
    (queueDelivery hmac members input eventId envelope sub).Keeps Harmless := by
  refine Prog.Keeps.lift fun _ c w _ w' h => ?_
  split at h
  · obtain rfl := congrArg Prod.snd (Option.some.inj h)
    exact .refl w
  · rename_i hguard
    obtain rfl := congrArg Prod.snd (Option.some.inj h)
    have hsub : (w.subscription sub.1).isSome = true := by
      simp only [Bool.or_eq_true, Option.isNone_iff_eq_none, not_or] at hguard
      exact Option.isSome_iff_ne_none.mpr hguard.2
    refine ⟨⟨by simp, fun id d' hid hd => ?_⟩, rfl, fun id d' hd => ?_, fun hk id d' hd => ?_⟩
    · rcases Table.getElem?_concat_cases (delivery_eq_some.mp hd) with hd | ⟨rfl, -⟩
      · exact ⟨d', delivery_eq_some.mpr hd, rfl⟩
      · exact absurd hid (Nat.lt_irrefl _)
    · rcases Table.getElem?_concat_cases (delivery_eq_some.mp hd) with hd | ⟨-, hd⟩
      · exact .inr (delivery_eq_some.mpr hd)
      · obtain rfl := Option.some.inj hd
        exact .inl (.inr (.inr ⟨rfl, rfl⟩))
    · rcases Table.getElem?_concat_cases (delivery_eq_some.mp hd) with hd | ⟨-, hd⟩
      · exact hk id d' (delivery_eq_some.mpr hd)
      · obtain rfl := Option.some.inj hd
        exact hsub

theorem harmless_dispatchEvent (input : DispatchEventInput) :
    (dispatchEvent hmac members input).Keeps Harmless := by
  refine Prog.Keeps.bind (Prog.Keeps.lift fun _ c w a w' h => ?_) fun found =>
    Prog.Keeps.each (fun _ => harmless_queueDelivery) _
  obtain ⟨rows, -, he⟩ := Option.map_eq_some_iff.mp h
  obtain rfl := congrArg Prod.snd he
  exact .refl w

theorem harmless_tick : tick.Keeps Harmless := by
  refine Prog.Keeps.lift fun _ c w _ w' h => ?_
  obtain ⟨batch, -, h⟩ := Option.bind_eq_some_iff.mp h
  split at h
  · obtain rfl := congrArg Prod.snd (Option.some.inj h)
    exact .of_same rfl rfl fun _ h => h
  · cases h

/-- A replay keeps what its change of the delivery keeps. -/
theorem keeps_replayDelivery {S : World → World → Prop} (hrefl : ∀ w, S w w) {id : Nat}
    (h : ∀ w d, w.delivery id = some d → S w (w.setDelivery id (d.replayed w.now)))
    (operatorId : String) : (replayDelivery operatorId id).Keeps S := by
  have hreplay : (replay id).Keeps S := by
    refine Prog.Keeps.bind (.query hrefl _) fun d => ?_
    split
    · refine Prog.Keeps.modify fun w => ?_
      split
      · exact hrefl w
      · rename_i d hd
        exact h w d hd
    · trivial
  refine Prog.Keeps.bind (.query hrefl _) fun d => ?_
  split
  · exact hreplay
  · trivial

theorem harmless_replayDelivery (operatorId : String) (id : Nat) :
    (replayDelivery operatorId id).Keeps Harmless :=
  keeps_replayDelivery .refl (fun w d hd => .setDelivery hd rfl (d.fine_replayed w.now)) operatorId

/-- A route that finds a subscription keeps what its change keeps. -/
theorem keeps_withSubscription {S : World → World → Prop} (hrefl : ∀ w, S w w)
    {operatorId : String} {id : Nat} {change : Subscription → Choice → World → World}
    (h : ∀ existing c w, S w (change existing c w)) :
    (withSubscription operatorId id change).Keeps S := by
  refine Prog.Keeps.bind (.query hrefl _) fun existing => ?_
  cases existing with
  | none => trivial
  | some existing =>
      dsimp only
      split
      · trivial
      · refine Prog.Keeps.lift fun _ c w _ w' hrun => ?_
        obtain rfl := congrArg Prod.snd (Option.some.inj hrun)
        exact h existing c w

theorem harmless_patch (operatorId : String) (id : Nat) (patch : WebhookPatch) :
    (patchSubscription operatorId id patch).Keeps Harmless := by
  refine keeps_withSubscription .refl fun _ _ w => ?_
  split
  · exact .refl w
  · exact .setSubscription id _

/-- Deleting a subscription deletes its deliveries. -/
theorem harmless_delete (operatorId : String) (id : Nat) :
    (deleteSubscription operatorId id).Keeps Harmless := by
  refine keeps_withSubscription .refl fun _ _ w => ?_
  have hrow : ∀ {n : Nat} {x : Delivery},
      ((w.deliveries.map fun d => d.filter fun d => d.subscriptionId ≠ id)[n]?).join = some x →
        w.delivery n = some x ∧ x.subscriptionId ≠ id := by
    intro n x hx
    rw [Option.join_eq_some_iff, List.getElem?_map] at hx
    obtain ⟨row, hrow, hfilter⟩ := Option.map_eq_some_iff.mp hx
    obtain ⟨rfl, hne⟩ := Option.filter_eq_some_iff.mp hfilter
    exact ⟨delivery_eq_some.mpr hrow, by simpa using hne⟩
  refine ⟨⟨by simp, fun n x _ hx => ⟨x, (hrow hx).1, rfl⟩⟩, rfl, fun n x hx => .inr (hrow hx).1,
    fun hk n x hx => ?_⟩
  obtain ⟨hd, hne⟩ := hrow hx
  obtain ⟨sub, hsub⟩ := Option.isSome_iff_exists.mp (hk n x hd)
  exact Option.isSome_iff_exists.mpr ⟨sub, subscription_eq_some.mpr
    ((Table.getElem?_set_of_ne hne).trans (subscription_eq_some.mp hsub))⟩

theorem harmless_rotateSecret (operatorId : String) (id : Nat) :
    (rotateSecret operatorId id).Keeps Harmless := by
  refine keeps_withSubscription .refl fun existing c w => ?_
  split
  · exact .refl w
  · split
    · exact .of_same rfl rfl fun _ h => subscription_set_isSome h
    · exact .refl w

theorem harmless_subscribe (operatorId url : String) (eventTypes : List WebhookEventType) :
    (subscribe operatorId url eventTypes).Keeps Harmless := by
  refine Prog.Keeps.lift fun _ c w _ w' h => ?_
  obtain rfl := congrArg Prod.snd (Option.some.inj h)
  refine .of_same rfl rfl fun n hn => ?_
  obtain ⟨sub, hsub⟩ := Option.isSome_iff_exists.mp hn
  exact Option.isSome_iff_exists.mpr ⟨sub, subscription_eq_some.mpr
    (Table.getElem?_concat_of_some (subscription_eq_some.mp hsub))⟩

theorem harmless_recorded (w : World) (deliveryId : Nat) (d : Delivery) (answer : HttpAnswer) :
    Harmless w (w.recorded deliveryId d answer) := by
  unfold World.recorded
  split
  · rename_i row sub hrow hsub
    exact (Harmless.setDelivery hrow (row.attempted_subscriptionId ..)
      (row.fine_attempted ..)).trans (.setSubscription ..)
  · exact .refl w

/-! ## The calls -/

/-- What a call has come to. -/
inductive Stage (w : World) (i : Nat) : Task World Choice Call → Prop
  | other (k : Call) (prog : Action Unit) (hnone : ∀ x ∈ w.claims, x.1 ≠ i)
      (h : prog.Keeps Harmless) : Stage w i ⟨k, prog⟩
  | opening (k : Call) (id : Nat) (hnone : ∀ x ∈ w.claims, x.1 ≠ i) : Stage w i ⟨k, deliver id⟩
  | reading (k : Call) (id : Nat) (hone : ∀ x ∈ w.claims, x.1 = i → x.2 = id)
      (hid : id < w.deliveries.length) : Stage w i ⟨k, attempt id⟩
  | posting (k : Call) (id : Nat) (d : Delivery) (sub : Subscription)
      (hone : ∀ x ∈ w.claims, x.1 = i → x.2 = id) (hid : id < w.deliveries.length)
      (hsame : ∀ row, w.delivery id = some row → row.subscriptionId = d.subscriptionId) :
      Stage w i ⟨k, post d sub >>= recordAttempt id d⟩
  | recording (k : Call) (id : Nat) (d : Delivery) (answer : HttpAnswer)
      (hone : ∀ x ∈ w.claims, x.1 = i → x.2 = id) (hid : id < w.deliveries.length)
      (hsame : ∀ row, w.delivery id = some row → row.subscriptionId = d.subscriptionId) :
      Stage w i ⟨k, recordAttempt id d answer⟩
  | ended (k : Call) : Stage w i ⟨k, .ret ()⟩

/-- The stage of a call depends on its claims, and on which subscription its delivery belongs to. -/
theorem Stage.frame {t : Task World Choice Call} (h : Stage w i t) (hl : Later w w')
    (hclaims : ∀ x : Nat × Nat, x.1 = i → (x ∈ w'.claims ↔ x ∈ w.claims)) : Stage w' i t := by
  have hnone : (∀ x ∈ w.claims, x.1 ≠ i) → ∀ x ∈ w'.claims, x.1 ≠ i := fun hn x hx hi =>
    hn x ((hclaims x hi).mp hx) hi
  have hone : ∀ {id}, (∀ x ∈ w.claims, x.1 = i → x.2 = id) → ∀ x ∈ w'.claims, x.1 = i → x.2 = id :=
    fun ho x hx hi => ho x ((hclaims x hi).mp hx) hi
  have hsame : ∀ {id} {d : Delivery}, id < w.deliveries.length →
      (∀ row, w.delivery id = some row → row.subscriptionId = d.subscriptionId) →
        ∀ row, w'.delivery id = some row → row.subscriptionId = d.subscriptionId := by
    intro id d hid hs row hrow
    obtain ⟨row', hrow', he⟩ := hl.same id row hid hrow
    exact he.symm.trans (hs row' hrow')
  cases h with
  | other k prog hn hk => exact .other k prog (hnone hn) hk
  | opening k id hn => exact .opening k id (hnone hn)
  | reading k id ho hid => exact .reading k id (hone ho) (hid.trans_le hl.length)
  | posting k id d sub ho hid hs =>
      exact .posting k id d sub (hone ho) (hid.trans_le hl.length) (hsame hid hs)
  | recording k id d answer ho hid hs =>
      exact .recording k id d answer (hone ho) (hid.trans_le hl.length) (hsame hid hs)
  | ended k => exact .ended k

/-- **What one action of call `i` does**: no harm, or it claims a delivery. -/
inductive Act (i : Nat) (w : World) : World → Prop
  | harmless (w' : World) (h : Harmless w w') : Act i w w'
  | claim (id : Nat) (d : Delivery) (hd : w.delivery id = some d) : Act i w (w.claimed i id d)

theorem delivery_claimed_cases {n : Nat} (h : (w.claimed i n d').delivery id = some d) :
    (id = n ∧ d = { d' with state := .inFlight }) ∨ (id ≠ n ∧ w.delivery id = some d) :=
  delivery_set_cases (w := w) h

theorem Act.later (h : Act i w w') : Later w w' := by
  cases h with
  | harmless w' h => exact h.toLater
  | claim id d hd =>
      refine ⟨by simp [World.claimed, World.setDelivery], fun n x _ hx => ?_⟩
      rcases delivery_claimed_cases hx with ⟨rfl, rfl⟩ | ⟨-, hx⟩
      · exact ⟨d, hd, rfl⟩
      · exact ⟨x, hx, rfl⟩

theorem Act.keyed (h : Act i w w') (hk : Keyed w) : Keyed w' := by
  cases h with
  | harmless w' h => exact h.keyed hk
  | claim id d hd =>
      intro n x hx
      rcases delivery_claimed_cases hx with ⟨rfl, rfl⟩ | ⟨-, hx⟩
      · exact hk n d hd
      · exact hk n x hx

/-- An action adds a claim of its own call at most. -/
theorem Act.mem_claims (h : Act i w w') {x : Nat × Nat} (hx : x.1 ≠ i) :
    x ∈ w'.claims ↔ x ∈ w.claims := by
  cases h with
  | harmless w' h => rw [h.claims]
  | claim id d hd =>
      refine List.mem_append.trans (or_iff_left fun hmem => hx ?_)
      rw [List.mem_singleton.mp hmem]

theorem Act.claims_subset (h : Act i w w') {x : Nat × Nat} (hx : x ∈ w.claims) :
    x ∈ w'.claims := by
  cases h with
  | harmless w' h => rwa [h.claims]
  | claim id d hd => exact List.mem_append_left _ hx

/-- **The calls are in order**: each is at a stage of its own, every delivery has its subscription,
and none is lost. -/
structure Ordered (p : State) : Prop where
  stage : ∀ i t, p.tasks[i]? = some t → Stage p.world i t
  keyed : Keyed p.world
  made : ∀ x ∈ p.world.claims, x.1 < p.tasks.length
  kept : ∀ id d, p.world.delivery id = some d → d.Fine ∨ (d.state = .inFlight ∧ Working p id)

/-- What another call holds, it still holds after an action of call `i`. -/
theorem Holds.of_ne {t : Task World Choice Call} (h : Holds p j id) (hne : j ≠ i)
    (hc : ∀ x ∈ p.world.claims, x ∈ w.claims) : Holds ⟨w, p.tasks.set i t⟩ j id := by
  obtain ⟨hclaim, t', ht', hend⟩ := h
  exact ⟨hc _ hclaim, t', (Table.getElem?_set_of_ne hne).trans ht', hend⟩

/-- **One action of call `i`** leaves the calls in order: the call comes to a stage of its own, and
where it has ended the deliveries that it held are fine. -/
theorem Ordered.act {k : Call} {prog : Action Unit} (h : Ordered p) (hlt : i < p.tasks.length)
    (ha : Act i p.world w) (hstage : Stage w i ⟨k, prog⟩)
    (hlast : prog.ended = true → Harmless p.world w ∧
      ∀ id, Holds p i id → ∀ d, w.delivery id = some d → d.Fine) :
    Ordered ⟨w, p.tasks.set i ⟨k, prog⟩⟩ := by
  have hget : (p.tasks.set i ⟨k, prog⟩)[i]? = some ⟨k, prog⟩ := List.getElem?_set_self hlt
  have hself : prog.ended = false → ∀ id, (i, id) ∈ w.claims →
      Working ⟨w, p.tasks.set i ⟨k, prog⟩⟩ id := fun hend id hc => ⟨i, hc, _, hget, hend⟩
  have hold : ∀ id d, w.delivery id = some d → d.state = .inFlight → Working p id →
      d.Fine ∨ (d.state = .inFlight ∧ Working ⟨w, p.tasks.set i ⟨k, prog⟩⟩ id) := by
    rintro id d hd hs ⟨j, hj⟩
    by_cases hji : j = i
    · subst hji
      cases hend : prog.ended with
      | true => exact .inl ((hlast hend).2 id hj d hd)
      | false => exact .inr ⟨hs, hself hend id (ha.claims_subset hj.1)⟩
    · exact .inr ⟨hs, j, hj.of_ne hji fun _ => ha.claims_subset⟩
  refine ⟨fun j t hj => ?_, ha.keyed h.keyed, fun x hx => ?_, fun id d hd => ?_⟩
  · rcases Table.getElem?_set_cases hj with ⟨rfl, rfl, -⟩ | ⟨hne, hj⟩
    · exact hstage
    · exact (h.stage j t hj).frame ha.later fun x hx => ha.mem_claims (hx ▸ hne)
  · rw [List.length_set]
    by_cases hxi : x.1 = i
    · exact hxi ▸ hlt
    · exact h.made x ((ha.mem_claims hxi).mp hx)
  · cases ha with
    | harmless w hh =>
        rcases hh.rows id d hd with hfine | hd'
        · exact .inl hfine
        · rcases h.kept id d hd' with hfine | ⟨hs, hwork⟩
          · exact .inl hfine
          · exact hold id d hd hs hwork
    | claim n d' hd' =>
        have hend : prog.ended = false := by
          by_contra hend
          have hclaims := (hlast (by simpa using hend)).1.claims
          have hlen := congrArg List.length hclaims
          simp [World.claimed] at hlen
        rcases delivery_claimed_cases hd with ⟨rfl, rfl⟩ | ⟨-, hd''⟩
        · exact .inr ⟨rfl, hself hend _ (List.mem_append_right _ (List.mem_singleton_self _))⟩
        · rcases h.kept id d hd'' with hfine | ⟨hs, hwork⟩
          · exact .inl hfine
          · exact hold id d hd hs hwork

/-- The first action of an attempt claims. -/
theorem deliver_eq (id : Nat) :
    deliver id = .act (fun i _ w => some (match w.delivery id with
      | none => (false, w)
      | some d => if d.state.queued then (true, w.claimed i id d) else (false, w)))
      fun claimed => if !claimed then .ret () else attempt id := rfl

/-- The second one reads. -/
theorem attempt_eq (id : Nat) :
    attempt id = .act (fun _ _ w => some ((w.delivery id).bind fun d =>
      (w.subscription d.subscriptionId).map fun sub => (d, sub), w))
      fun delivery => match delivery with
        | none => .ret ()
        | some (delivery, sub) => post delivery sub >>= recordAttempt id delivery := rfl

/-- The third one posts. -/
theorem post_eq (id : Nat) (d : Delivery) (sub : Subscription) :
    post d sub >>= recordAttempt id d =
      .act (fun _ c w => some (c.answer, { w with sent := w.sent ++ [d.request sub w.now] }))
        (recordAttempt id d) := rfl

/-- The last one notes what came of it. -/
theorem recordAttempt_eq (id : Nat) (d : Delivery) (answer : HttpAnswer) :
    recordAttempt id d answer = .act (fun _ _ w => some ((), w.recorded id d answer)) .ret := rfl

/-- A delivery is fine once its attempt was noted. -/
theorem fine_of_recorded {answer : HttpAnswer} (hk : Keyed w)
    (hsame : ∀ row, w.delivery id = some row → row.subscriptionId = d.subscriptionId)
    (h : (w.recorded id d answer).delivery id = some d') : d'.Fine := by
  unfold World.recorded at h
  cases hrow : w.delivery id with
  | none =>
      simp only [hrow] at h
      cases h
  | some row =>
      obtain ⟨sub, hsub⟩ := Option.isSome_iff_exists.mp (hk id row hrow)
      rw [hsame row hrow] at hsub
      simp only [hrow, hsub] at h
      rcases delivery_set_cases (w := w) h with ⟨-, rfl⟩ | ⟨hne, -⟩
      · exact row.fine_attempted ..
      · exact absurd rfl hne

/-- **An action of a call leaves the calls in order.** -/
theorem Ordered.run {c : Choice} (h : Ordered p)
    (hs : (webhookServer hmac members).step p (.run i c) = some q) : Ordered q := by
  simp only [System.step, System.runTask] at hs
  cases ht : p.tasks[i]? with
  | none => simp [ht] at hs
  | some t =>
      have hlt : i < p.tasks.length := (List.getElem?_eq_some_iff.mp ht).1
      have hst := h.stage i t ht
      rw [ht] at hs
      cases hst with
      | other k prog hnone hkeeps =>
          cases prog with
          | ret _ => cases hs
          | act run next =>
              obtain ⟨⟨b, w⟩, hb, rfl⟩ := Option.map_eq_some_iff.mp hs
              have hharm : Harmless p.world w := hkeeps.1 i c _ _ _ hb
              refine h.act hlt (.harmless w hharm) (.other k _ ?_ (hkeeps.2 b)) fun _ => ⟨hharm, ?_⟩
              · rwa [hharm.claims]
              · exact fun id hi => absurd rfl (hnone _ hi.1)
      | opening k id hnone =>
          have hno : ∀ id, ¬ Holds p i id := fun id hi => hnone _ hi.1 rfl
          simp only [deliver_eq, Option.map_some, Option.some.injEq] at hs
          subst hs
          cases hd : p.world.delivery id with
          | none =>
              exact h.act hlt (.harmless _ (.refl _)) (.ended k) fun _ =>
                ⟨.refl _, fun id hi => absurd hi (hno id)⟩
          | some d =>
              dsimp only
              by_cases hq : d.state.queued = true
              · simp only [if_pos hq]
                refine h.act hlt (.claim id d hd) (.reading k id (fun x hx hi => ?_) ?_) fun hend => ?_
                · rcases List.mem_append.mp hx with hx | hx
                  · exact absurd hi (hnone x hx)
                  · rw [List.mem_singleton.mp hx]
                · have hid := (List.getElem?_eq_some_iff.mp (delivery_eq_some.mp hd)).1
                  simpa [World.claimed, World.setDelivery] using hid
                · cases hend
              · simp only [if_neg hq]
                exact h.act hlt (.harmless _ (.refl _)) (.ended k) fun _ =>
                  ⟨.refl _, fun id hi => absurd hi (hno id)⟩
      | reading k id hone hid =>
          simp only [attempt_eq, Option.map_some, Option.some.injEq] at hs
          subst hs
          cases hd : p.world.delivery id with
          | none =>
              refine h.act hlt (.harmless _ (.refl _)) (.ended k) fun _ => ⟨.refl _, fun n hi d hn => ?_⟩
              obtain rfl : n = id := hone _ hi.1 rfl
              rw [hd] at hn
              cases hn
          | some d =>
              obtain ⟨sub, hsub⟩ := Option.isSome_iff_exists.mp (h.keyed id d hd)
              simp only [Option.bind_some, hsub, Option.map_some]
              refine h.act hlt (.harmless _ (.refl _)) (.posting k id d sub hone hid fun row hrow => ?_)
                fun hend => ?_
              · rw [hd] at hrow
                rw [Option.some.inj hrow]
              · cases hend
      | posting k id d sub hone hid hsame =>
          simp only [post_eq, Option.map_some, Option.some.injEq] at hs
          subst hs
          refine h.act hlt (.harmless _ (.of_same rfl rfl fun _ h => h))
            (.recording k id d c.answer hone hid hsame) fun hend => ?_
          cases hend
      | recording k id d answer hone hid hsame =>
          simp only [recordAttempt_eq, Option.map_some, Option.some.injEq] at hs
          subst hs
          have hharm := harmless_recorded p.world id d answer
          refine h.act hlt (.harmless _ hharm) (.ended k) fun _ => ⟨hharm, fun n hi d' hn => ?_⟩
          obtain rfl : n = id := hone _ hi.1 rfl
          exact fine_of_recorded h.keyed hsame hn
      | ended k => cases hs

/-- The program of a call is at a stage as long as the call has claimed nothing. -/
theorem Stage.code (k : Call) (hnone : ∀ x ∈ w.claims, x.1 ≠ i) :
    Stage w i ⟨k, k.code hmac members⟩ := by
  cases k with
  | deliver id => exact .opening _ id hnone
  | dispatchEvent input => exact .other _ _ hnone (harmless_dispatchEvent input)
  | tick => exact .other _ _ hnone harmless_tick
  | replay operatorId id => exact .other _ _ hnone (harmless_replayDelivery operatorId id)
  | subscribe operatorId url eventTypes =>
      exact .other _ _ hnone (harmless_subscribe operatorId url eventTypes)
  | patch operatorId id change => exact .other _ _ hnone (harmless_patch operatorId id change)
  | delete operatorId id => exact .other _ _ hnone (harmless_delete operatorId id)
  | rotateSecret operatorId id => exact .other _ _ hnone (harmless_rotateSecret operatorId id)

/-- A new call claims nothing at first. -/
theorem Ordered.call {k : Call} (h : Ordered p)
    (hs : (webhookServer hmac members).step p (.call k) = some q) : Ordered q := by
  simp only [System.step] at hs
  split at hs
  · obtain rfl := Option.some.inj hs
    refine ⟨fun i t ht => ?_, h.keyed, fun x hx => ?_, fun id d hd => ?_⟩
    · rcases Table.getElem?_concat_cases ht with ht | ⟨rfl, rfl⟩
      · exact h.stage i t ht
      · exact .code k fun x hx => (h.made x hx).ne
    · have hlt := h.made x hx
      simp only [List.length_append, List.length_singleton]
      omega
    · rcases h.kept id d hd with hfine | ⟨hs, i, hclaim, t, ht, hend⟩
      · exact .inl hfine
      · exact .inr ⟨hs, i, hclaim, t, Table.getElem?_concat_of_some ht, hend⟩
  · cases hs

/-! ## Calls that are taken down -/

/-- What an event that is not of a call itself does to the calls. -/
structure Outage (p : State) (e : Happening) (q : State) : Prop where
  deliveries : q.world.deliveries = p.world.deliveries
  subscriptions : q.world.subscriptions = p.world.subscriptions
  claims : q.world.claims = p.world.claims
  tasks : ∀ j, q.tasks[j]? = p.tasks[j]?.map fun t => if TakesDown e j then t.cut else t

theorem outage_kill (hs : (webhookServer hmac members).step p (.kill i) = some q) :
    Outage p (.kill i) q := by
  obtain rfl : _ = q := by simpa [System.step] using hs
  refine ⟨rfl, rfl, rfl, fun j => ?_⟩
  simp only [List.getElem?_modify, TakesDown]
  rfl

theorem outage_env {x : Outside} (hs : (webhookServer hmac members).step p (.env x) = some q) :
    Outage p (.env x) q := by
  obtain ⟨w, hw, rfl⟩ := Option.map_eq_some_iff.mp hs
  have hsame : w.deliveries = p.world.deliveries ∧ w.subscriptions = p.world.subscriptions ∧
      w.claims = p.world.claims := by
    cases x with
    | elapse ms =>
        obtain rfl := Option.some.inj hw
        exact ⟨rfl, rfl, rfl⟩
    | restart =>
        obtain rfl := Option.some.inj hw
        exact ⟨rfl, rfl, rfl⟩
  refine ⟨hsame.1, hsame.2.1, hsame.2.2, fun j => ?_⟩
  cases x <;> simp [webhookServer, TakesDown, List.getElem?_map]

namespace Outage

variable {e : Happening}

theorem delivery (h : Outage p e q) (id : Nat) : q.world.delivery id = p.world.delivery id := by
  rw [World.delivery, World.delivery, h.deliveries]

/-- Who holds a delivery afterwards: whoever held it and is not taken down. -/
theorem holds_iff (h : Outage p e q) : Holds q j id ↔ Holds p j id ∧ ¬ TakesDown e j := by
  unfold Holds
  rw [h.claims, h.tasks j]
  constructor
  · rintro ⟨hclaim, t, ht, hend⟩
    obtain ⟨t', ht', rfl⟩ := Option.map_eq_some_iff.mp ht
    by_cases hdown : TakesDown e j
    · rw [if_pos hdown] at hend
      cases hend
    · rw [if_neg hdown] at hend
      exact ⟨⟨hclaim, t', ht', hend⟩, hdown⟩
  · rintro ⟨⟨hclaim, t, ht, hend⟩, hdown⟩
    exact ⟨hclaim, t, by rw [ht, Option.map_some, if_neg hdown], hend⟩

/-- **No webhook is lost by an outage** exactly when attempts go on. -/
theorem noneLost_iff (h : Outage p e q) (hp : Ordered p) : NoneLost p e q ↔ AttemptsGoOn p e q := by
  constructor
  · intro hn i _ id d hd hs _
    have hkept := hn id d (h.delivery id ▸ hd)
    rcases hkept with hfine | ⟨j, hj⟩
    · exact absurd hs hfine.not_inFlight
    · exact ⟨j, h.holds_iff.mp hj⟩
  · intro hgo id d hd
    rw [h.delivery] at hd
    rcases hp.kept id d hd with hfine | ⟨hs, i, hi⟩
    · exact .inl hfine
    · by_cases hdown : TakesDown e i
      · obtain ⟨j, hj⟩ := hgo i hdown id d hd hs hi
        exact .inr ⟨j, h.holds_iff.mpr hj⟩
      · exact .inr ⟨i, h.holds_iff.mpr ⟨hi, hdown⟩⟩

/-- An outage after which no webhook is lost leaves the calls in order. -/
theorem ordered (h : Outage p e q) (hp : Ordered p) (hn : NoneLost p e q) : Ordered q := by
  have hlater : Later p.world q.world :=
    ⟨by rw [h.deliveries], fun id d' _ hd => ⟨d', h.delivery id ▸ hd, rfl⟩⟩
  refine ⟨fun j t ht => ?_, fun id d hd => ?_, fun x hx => ?_, fun id d hd => ?_⟩
  · rw [h.tasks j] at ht
    obtain ⟨t', ht', rfl⟩ := Option.map_eq_some_iff.mp ht
    split
    · exact .ended t'.call
    · exact (hp.stage j t' ht').frame hlater fun x _ => by rw [h.claims]
  · rw [h.delivery] at hd
    rw [World.subscription, h.subscriptions]
    exact hp.keyed id d hd
  · rw [h.claims] at hx
    obtain ⟨t, ht⟩ : ∃ t, p.tasks[x.1]? = some t :=
      ⟨_, List.getElem?_eq_getElem (hp.made x hx)⟩
    have hq := h.tasks x.1
    rw [ht] at hq
    exact (List.getElem?_eq_some_iff.mp hq).1
  · have hq := hn id d hd
    rw [h.delivery] at hd
    rcases hp.kept id d hd with hfine | ⟨hs, -⟩
    · exact .inl hfine
    · exact .inr ⟨hs, hq.resolve_left fun hfine => hfine.not_inFlight hs⟩

end Outage

/-! ## Runs -/

/-- **One step**: no webhook is lost exactly when attempts go on, and then the calls stay in order. -/
theorem step_lost {e : Happening} (h : Ordered p)
    (hs : (webhookServer hmac members).step p e = some q) :
    (NoneLost p e q ↔ AttemptsGoOn p e q) ∧ (AttemptsGoOn p e q → Ordered q) := by
  have hquiet : Ordered q → (∀ i, ¬ TakesDown e i) →
      (NoneLost p e q ↔ AttemptsGoOn p e q) ∧ (AttemptsGoOn p e q → Ordered q) := fun hq hnone =>
    ⟨iff_of_true (fun id d hd => (hq.kept id d hd).imp_right And.right)
      fun i hi => absurd hi (hnone i), fun _ => hq⟩
  have hout : Outage p e q →
      (NoneLost p e q ↔ AttemptsGoOn p e q) ∧ (AttemptsGoOn p e q → Ordered q) := fun ho =>
    ⟨ho.noneLost_iff h, fun hgo => ho.ordered h ((ho.noneLost_iff h).mpr hgo)⟩
  cases e with
  | run i c => exact hquiet (h.run hs) fun _ => id
  | call k => exact hquiet (h.call hs) fun _ => id
  | kill i => exact hout (outage_kill hs)
  | env x => exact hout (outage_env hs)

/-- A server without subscriptions is in order. -/
theorem initial_ordered (now : Millis) : Ordered (initial now) := by
  refine ⟨fun i t ht => ?_, fun id d hd => ?_, (fun x hx => nomatch hx), fun id d hd => ?_⟩
  · simp [initial] at ht
  · simp [initial, World.delivery] at hd
  · simp [initial, World.delivery] at hd

open Classical in
/-- **No webhook is lost**: for every signature function and every order of members, and for every
list of events, dispatches, polls, attempts, replays, changes of subscriptions, exceptions and
restarts, every delivery has come to its end, is worked on, or is taken up later, exactly when no
event takes down a call that holds a delivery in flight without another call that holds it too. -/
theorem none_lost_iff (hmac : String → Text → String) (members : MemberOrder) (now : Millis)
    (es : List Happening) :
    (webhookServer hmac members).exec NoneLost (initial now) es =
      (webhookServer hmac members).exec AttemptsGoOn (initial now) es :=
  System.exec_congr (I := Ordered) es (initial_ordered now) fun h hs => step_lost h hs

namespace Sample

/-- A signature function that tells secrets apart. -/
def sign (secret : String) (body : Text) : String := secret ++ String.ofList body

/-- What is drawn, and what a receiver answers; queries hand out row 0. -/
def choice (drawn : String) (answer : HttpAnswer) : Choice := ⟨drawn, false, [0], answer⟩

/-- A test event of an operator. -/
def event : DispatchEventInput := ⟨"op", .webhookTest, .null, rfl, none, none, none⟩

/-- An operator subscribes, and an event is dispatched; a poll finds its delivery due. -/
def dispatching : List Happening :=
  [.call (.subscribe "op" "https://receiver" []), .run 0 (choice "a" .networkError),
    .call (.dispatchEvent event), .run 1 (choice "e" .networkError),
    .run 1 (choice "" .networkError), .call .tick, .run 2 (choice "" .networkError),
    .call (.deliver 0)]

end Sample

/-- **A delivery is stranded in flight**: the process stops after the claim. -/
theorem stranded_in_flight : ∃ p q,
    (webhookServer Sample.sign .byLength).Run Anything (initial 0) p ∧
      (webhookServer Sample.sign .byLength).step p (.env .restart) = some q ∧
        ¬ NoneLost p (.env .restart) q := by
  have h : (((webhookServer Sample.sign .byLength).exec Anything (initial 0)
      (Sample.dispatching ++ [.run 3 (Sample.choice "" .networkError)])).bind fun p =>
        ((webhookServer Sample.sign .byLength).step p (.env .restart)).map fun q =>
          ((q.world.delivery 0).map Delivery.state, q.tasks.all fun t => t.prog.ended)) =
            some (some .inFlight, true) := by
    decide +kernel
  obtain ⟨p, hp, hq⟩ := Option.bind_eq_some_iff.mp h
  obtain ⟨q, hq, hv⟩ := Option.map_eq_some_iff.mp hq
  obtain ⟨hstate, hended⟩ := Prod.mk.inj hv
  obtain ⟨d, hd, hs⟩ := Option.map_eq_some_iff.mp hstate
  refine ⟨p, q, .of_exec hp, hq, fun hn => ?_⟩
  rcases hn 0 d hd with hfine | ⟨i, -, t, ht, hend⟩
  · exact hfine.not_inFlight hs
  · have htrue := List.all_eq_true.mp hended t (List.mem_of_getElem? ht)
    rw [hend] at htrue
    cases htrue

end YantraRgs.Webhooks
