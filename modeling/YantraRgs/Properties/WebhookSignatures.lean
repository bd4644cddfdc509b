import YantraRgs.Await.RelyGuarantee
import YantraRgs.Properties.WebhookQueue

/-! # Webhooks verify at the receiver

A delivery is signed when its event is dispatched, and every attempt sends that signature; the version
of the secret is read anew for every request. So the two belong together as long as the secret is not
rotated in between, and a version designates one secret as long as rotations of one subscription do
not overlap.

* **`SignaturesVerify`** — the property of one step.
* **`SecretsStay`** — the condition on one step.
* **`Sound`** — the invariant: versions count rotations, and deliveries are signed under secrets that
  were handed out.
* **`signatures_verify`** — the property along every run that meets the condition. -/

namespace YantraRgs.Webhooks

open Await

variable {hmac : String → Text → String} {members : MemberOrder} {p q : State} {w w' : World}
  {i id : Nat}

namespace World

variable (w : World)

/-- The secret that a version designates: the last one that was handed out under it. -/
def designated (subscriptionId : Nat) (secretVersion : String) : Option String :=
  (w.published.filter fun s => s.subscriptionId = subscriptionId ∧
    s.secretVersion = secretVersion).getLast?.map PublishedSecret.secret

/-- A request verifies over its body under the secret that its version designates. -/
def Verifies (hmac : String → Text → String) (r : WebhookRequest) : Prop :=
  ∃ secret, w.designated r.subscriptionId r.signatureVersion = some secret ∧
    r.signature = hmac secret r.body

end World

/-- **Webhooks verify**: every request that a step sends does. -/
def SignaturesVerify (hmac : String → Text → String) (p : State) (_ : Happening) (q : State) :
    Prop :=
  ∀ r ∈ q.world.sent.drop p.world.sent.length, p.world.Verifies hmac r

/-- **The condition on one step**: where it sends a request, the secret was not rotated between its
reading for the signature and the reading of the version; where it rotates a secret, nobody has
rotated it since the version was read. -/
structure Undisturbed (w w' : World) : Prop where
  sent : ∀ r ∈ w'.sent.drop w.sent.length, r.signedAfter = r.readAfter
  published : ∀ s ∈ w'.published.drop w.published.length, s.readAfter = s.writtenAfter

/-- The condition on a step of a run. -/
def SecretsStay (p : State) (_ : Happening) (q : State) : Prop := Undisturbed p.world q.world

instance (p : State) (e : Happening) (q : State) : Decidable (SecretsStay p e q) :=
  decidable_of_iff ((∀ r ∈ q.world.sent.drop p.world.sent.length, r.signedAfter = r.readAfter) ∧
    ∀ s ∈ q.world.published.drop p.world.published.length, s.readAfter = s.writtenAfter)
    ⟨fun h => ⟨h.1, h.2⟩, fun h => ⟨h.1, h.2⟩⟩

/-! ## Versions -/

/-- The version after `n` rotations. -/
def label (n : Nat) : String := "v" ++ toString (n + 1)

theorem toList_label (n : Nat) : (label n).toList = 'v' :: Nat.toDigits 10 (n + 1) := by
  rw [label, String.toList_append, toList_toString_nat]
  rfl

/-- The first version is the one that a subscription has by default. -/
theorem label_zero : label 0 = "v1" := by decide

theorem label_inj {n m : Nat} (h : label n = label m) : n = m := by
  have hlist := congrArg String.toList h
  rw [toList_label, toList_label] at hlist
  exact Nat.succ.inj (toDigits_inj (List.cons.inj hlist).2)

/-- **Each rotation goes on to the next version.** -/
theorem nextVersion_label (n : Nat) : nextVersion (label n) = label (n + 1) := by
  have hne : Nat.toDigits 10 (n + 1) ≠ [] := Nat.toDigits_ne_nil
  have hdigits : (Nat.toDigits 10 (n + 1)).all Char.isDigit = true :=
    List.all_eq_true.mpr fun c hc => isDigit_of_mem_toDigits hc
  simp only [nextVersion, toList_label]
  rw [if_pos ⟨hne, hdigits⟩, Nat.ofDigitChars_ten_toDigits]
  rfl

/-! ## The invariant -/

/-- The `n`-th secret of a subscription was handed out. -/
def World.Published (w : World) (id n : Nat) (secret : String) : Prop :=
  ∃ s ∈ w.published, s.subscriptionId = id ∧ s.secretVersion = label n ∧ s.secret = secret

/-- A delivery is signed under a secret that was handed out. -/
def World.Signed (hmac : String → Text → String) (w : World) (d : Delivery) : Prop :=
  ∃ secret, w.Published d.subscriptionId d.signedAfter secret ∧
    d.signature = hmac secret (canonicalJson d.payload)

/-- **The invariant**: a subscription has the version that counts its rotations, and its secret was
handed out under it; no version was handed out for two secrets; and every delivery is signed. -/
structure Sound (hmac : String → Text → String) (w : World) : Prop where
  current : ∀ id sub, w.subscription id = some sub →
    sub.secretVersion = label sub.rotations ∧ w.Published id sub.rotations sub.secret
  bound : ∀ s ∈ w.published, s.subscriptionId < w.subscriptions.length
  past : ∀ s ∈ w.published, ∀ sub, w.subscription s.subscriptionId = some sub →
    ∃ n ≤ sub.rotations, s.secretVersion = label n
  unique : ∀ s ∈ w.published, ∀ s' ∈ w.published, s.subscriptionId = s'.subscriptionId →
    s.secretVersion = s'.secretVersion → s.secret = s'.secret
  signed : ∀ id d, w.delivery id = some d → w.Signed hmac d

theorem World.Published.mono {n : Nat} {secret : String} (h : w.Published id n secret)
    (hsub : ∀ s ∈ w.published, s ∈ w'.published) : w'.Published id n secret := by
  obtain ⟨s, hs, hid, hn, hsecret⟩ := h
  exact ⟨s, hsub s hs, hid, hn, hsecret⟩

theorem World.Signed.mono {d : Delivery} (h : w.Signed hmac d)
    (hsub : ∀ s ∈ w.published, s ∈ w'.published) : w'.Signed hmac d := by
  obtain ⟨secret, hp, hsig⟩ := h
  exact ⟨secret, hp.mono hsub, hsig⟩

/-- **A version designates the secret that was handed out under it.** -/
theorem Sound.designated {n : Nat} {secret : String} (h : Sound hmac w)
    (hp : w.Published id n secret) : w.designated id (label n) = some secret := by
  obtain ⟨s, hs, rfl, hn, rfl⟩ := hp
  have hmem : s ∈ w.published.filter fun x => x.subscriptionId = s.subscriptionId ∧
      x.secretVersion = label n := List.mem_filter.mpr ⟨hs, by simpa using hn⟩
  obtain ⟨s', hs'⟩ := Option.isSome_iff_exists.mp
    (List.getLast?_isSome.mpr (List.ne_nil_of_mem hmem))
  have hlast := List.mem_filter.mp (List.mem_of_getLast? hs')
  simp only [decide_eq_true_eq] at hlast
  rw [World.designated, hs', Option.map_some]
  exact congrArg some (h.unique s' hlast.1 s hs hlast.2.1 (hlast.2.2.trans hn.symm))

/-- **One action**: it keeps the invariant and what was handed out, and what it sends verifies. -/
structure Move (hmac : String → Text → String) (w w' : World) : Prop where
  sound : Sound hmac w → Sound hmac w'
  published : ∀ s ∈ w.published, s ∈ w'.published
  sent : ∀ r ∈ w'.sent.drop w.sent.length, w.Verifies hmac r

theorem Move.refl (w : World) : Move hmac w w :=
  ⟨fun h => h, fun _ hs => hs, fun r hr => by rw [List.drop_length] at hr; cases hr⟩

/-! ## Actions that change neither secrets nor signatures -/

/-- Two subscriptions have the same secret. -/
structure Subscription.Same (sub sub' : Subscription) : Prop where
  secret : sub'.secret = sub.secret
  secretVersion : sub'.secretVersion = sub.secretVersion
  rotations : sub'.rotations = sub.rotations

/-- Two deliveries are the same, but for what has become of them. -/
structure Delivery.Same (d d' : Delivery) : Prop where
  subscriptionId : d'.subscriptionId = d.subscriptionId
  payload : d'.payload = d.payload
  signature : d'.signature = d.signature
  signedAfter : d'.signedAfter = d.signedAfter

/-- **No secret and no signature changes**, and nothing is sent. -/
structure Kept (w w' : World) : Prop where
  published : w'.published = w.published
  sent : w'.sent = w.sent
  length : w.subscriptions.length ≤ w'.subscriptions.length
  subscriptions : ∀ id sub', w'.subscription id = some sub' →
    ∃ sub, w.subscription id = some sub ∧ sub.Same sub'
  deliveries : ∀ id d', w'.delivery id = some d' → ∃ d, w.delivery id = some d ∧ d.Same d'

theorem Subscription.Same.refl (sub : Subscription) : sub.Same sub := ⟨rfl, rfl, rfl⟩

theorem Delivery.Same.refl (d : Delivery) : d.Same d := ⟨rfl, rfl, rfl, rfl⟩

theorem Kept.refl (w : World) : Kept w w :=
  ⟨rfl, rfl, Nat.le_refl _, fun _ sub h => ⟨sub, h, .refl sub⟩, fun _ d h => ⟨d, h, .refl d⟩⟩

theorem Kept.trans {w'' : World} (h : Kept w w') (h' : Kept w' w'') : Kept w w'' := by
  refine ⟨h'.published.trans h.published, h'.sent.trans h.sent, h.length.trans h'.length,
    fun id sub'' hs => ?_, fun id d'' hd => ?_⟩
  · obtain ⟨sub', hs', he'⟩ := h'.subscriptions id sub'' hs
    obtain ⟨sub, hs, he⟩ := h.subscriptions id sub' hs'
    exact ⟨sub, hs, he'.secret.trans he.secret, he'.secretVersion.trans he.secretVersion,
      he'.rotations.trans he.rotations⟩
  · obtain ⟨d', hd', he'⟩ := h'.deliveries id d'' hd
    obtain ⟨d, hd, he⟩ := h.deliveries id d' hd'
    exact ⟨d, hd, he'.subscriptionId.trans he.subscriptionId, he'.payload.trans he.payload,
      he'.signature.trans he.signature, he'.signedAfter.trans he.signedAfter⟩

/-- One delivery is changed. -/
theorem Kept.setDelivery {d d' : Delivery} (hd : w.delivery id = some d) (h : d.Same d') :
    Kept w (w.setDelivery id d') := by
  refine ⟨rfl, rfl, Nat.le_refl _, fun _ sub h => ⟨sub, h, .refl sub⟩, fun n x hx => ?_⟩
  rcases delivery_set_cases hx with ⟨rfl, rfl⟩ | ⟨-, hx⟩
  · exact ⟨d, hd, h⟩
  · exact ⟨x, hx, .refl x⟩

/-- A row of the table of subscriptions in which one was replaced. -/
theorem subscription_set_cases {n : Nat} {x sub : Subscription}
    (h : (w.setSubscription n x).subscription id = some sub) :
    (id = n ∧ sub = x) ∨ (id ≠ n ∧ w.subscription id = some sub) := by
  rcases Table.getElem?_set_cases (subscription_eq_some.mp h) with ⟨hid, hs, -⟩ | ⟨hid, hs⟩
  · exact .inl ⟨hid, Option.some.inj hs⟩
  · exact .inr ⟨hid, subscription_eq_some.mpr hs⟩

/-- One subscription is changed. -/
theorem Kept.setSubscription {sub sub' : Subscription} (hs : w.subscription id = some sub)
    (h : sub.Same sub') : Kept w (w.setSubscription id sub') := by
  refine ⟨rfl, rfl, by simp [World.setSubscription], fun n x hx => ?_,
    fun _ d h => ⟨d, h, .refl d⟩⟩
  rcases subscription_set_cases hx with ⟨rfl, rfl⟩ | ⟨-, hx⟩
  · exact ⟨sub, hs, h⟩
  · exact ⟨x, hx, .refl x⟩

/-- The tables are the same. -/
theorem Kept.of_tables (hd : w'.deliveries = w.deliveries)
    (hs : w'.subscriptions = w.subscriptions) (hp : w'.published = w.published)
    (hsent : w'.sent = w.sent) : Kept w w' :=
  ⟨hp, hsent, by rw [hs], fun _ sub h => ⟨sub, by rwa [World.subscription, hs] at h, .refl sub⟩,
    fun _ d h => ⟨d, by rwa [World.delivery, hd] at h, .refl d⟩⟩

/-- **The invariant is kept** as long as no secret and no signature changes. -/
theorem Kept.move (h : Kept w w') : Move hmac w w' := by
  have hsub : ∀ s ∈ w.published, s ∈ w'.published := fun s hs => by rwa [h.published]
  refine ⟨fun hw => ⟨fun id sub' hs => ?_, fun s hs => ?_, fun s hs sub' hsub' => ?_, ?_,
    fun id d' hd => ?_⟩, hsub, fun r hr => ?_⟩
  · obtain ⟨sub, hs, he⟩ := h.subscriptions id sub' hs
    obtain ⟨hversion, hpub⟩ := hw.current id sub hs
    rw [he.rotations, he.secretVersion, he.secret]
    exact ⟨hversion, hpub.mono hsub⟩
  · rw [h.published] at hs
    exact (hw.bound s hs).trans_le h.length
  · rw [h.published] at hs
    obtain ⟨sub, hsub, he⟩ := h.subscriptions _ sub' hsub'
    rw [he.rotations]
    exact hw.past s hs sub hsub
  · rw [h.published]
    exact hw.unique
  · obtain ⟨d, hd, he⟩ := h.deliveries id d' hd
    obtain ⟨secret, hpub, hsig⟩ := hw.signed id d hd
    refine ⟨secret, ?_, ?_⟩
    · rw [he.subscriptionId, he.signedAfter]
      exact hpub.mono hsub
    · rw [he.signature, he.payload]
      exact hsig
  · rw [h.sent, List.drop_length] at hr
    cases hr

/-- What happens outside. -/
theorem kept_env {x : Outside} (h : (webhookServer hmac members).env x w = some w') :
    Kept w w' := by
  cases x with
  | elapse ms =>
      obtain rfl := Option.some.inj h
      exact .of_tables rfl rfl rfl rfl
  | restart =>
      obtain rfl := Option.some.inj h
      exact .refl w

theorem kept_tick : tick.Keeps Kept := by
  refine Prog.Keeps.lift fun _ c w _ w' h => ?_
  obtain ⟨batch, -, h⟩ := Option.bind_eq_some_iff.mp h
  split at h
  · obtain rfl := congrArg Prod.snd (Option.some.inj h)
    exact .of_tables rfl rfl rfl rfl
  · cases h

theorem kept_claim (deliveryId : Nat) : (claim deliveryId).Keeps Kept := by
  refine Prog.Keeps.request fun i w => ?_
  split
  · exact .refl w
  · rename_i d hd
    split
    · have hset : Kept w (w.setDelivery deliveryId { d with state := .inFlight }) :=
        .setDelivery hd ⟨rfl, rfl, rfl, rfl⟩
      exact hset.trans (.of_tables rfl rfl rfl rfl)
    · exact .refl w

theorem Delivery.same_attempted (d : Delivery) (attempt : Nat) (answer : HttpAnswer)
    (now : Millis) : d.Same (d.attempted attempt answer now) := by
  unfold Delivery.attempted
  split
  · exact ⟨rfl, rfl, rfl, rfl⟩
  · exact ⟨rfl, rfl, rfl, rfl⟩

theorem Subscription.same_attempted (sub : Subscription) (answer : HttpAnswer) (now : Millis) :
    sub.Same (sub.attempted answer now) := by
  unfold Subscription.attempted
  split
  · exact ⟨rfl, rfl, rfl⟩
  · exact ⟨rfl, rfl, rfl⟩

theorem kept_recordAttempt (deliveryId : Nat) (d : Delivery) (answer : HttpAnswer) :
    (recordAttempt deliveryId d answer).Keeps Kept := by
  refine Prog.Keeps.modify fun w => ?_
  unfold World.recorded
  split
  · rename_i row sub hrow hsub
    exact (Kept.setDelivery hrow (row.same_attempted ..)).trans
      (.setSubscription hsub (sub.same_attempted ..))
  · exact .refl w

theorem kept_replayDelivery (operatorId : String) (id : Nat) :
    (replayDelivery operatorId id).Keeps Kept :=
  keeps_replayDelivery .refl (fun _ _ hd => .setDelivery hd ⟨rfl, rfl, rfl, rfl⟩) operatorId

theorem kept_patch (operatorId : String) (id : Nat) (patch : WebhookPatch) :
    (patchSubscription operatorId id patch).Keeps Kept := by
  refine keeps_withSubscription .refl fun _ _ w => ?_
  split
  · exact .refl w
  · rename_i sub hsub
    exact .setSubscription hsub ⟨rfl, rfl, rfl⟩

theorem kept_delete (operatorId : String) (id : Nat) :
    (deleteSubscription operatorId id).Keeps Kept := by
  refine keeps_withSubscription .refl fun _ _ w => ?_
  refine ⟨rfl, rfl, by simp, fun n sub hs => ?_, fun n d hd => ?_⟩
  · rcases Table.getElem?_set_cases (subscription_eq_some.mp hs) with ⟨-, hs, -⟩ | ⟨-, hs⟩
    · cases hs
    · exact ⟨sub, subscription_eq_some.mpr hs, .refl sub⟩
  · rw [delivery_eq_some, List.getElem?_map] at hd
    obtain ⟨row, hrow, hfilter⟩ := Option.map_eq_some_iff.mp hd
    obtain ⟨rfl, -⟩ := Option.filter_eq_some_iff.mp hfilter
    exact ⟨d, delivery_eq_some.mpr hrow, .refl d⟩

/-! ## The calls keep to the rules -/

/-- What a call may rely on: what was handed out stays handed out. -/
def Rely (w w' : World) : Prop := ∀ s ∈ w.published, s ∈ w'.published

/-- The rules for every call. -/
def rules (hmac : String → Text → String) : Rules World :=
  ⟨Sound hmac, Undisturbed, Rely, Move hmac⟩

/-- A call may go on with a program. -/
abbrev Walk {α : Type} (hmac : String → Text → String) (i : Nat) (p : Action α)
    (Q : α → World → Prop) (w : World) : Prop := Go (rules hmac) i p Q w

/-- A program that changes neither secrets nor signatures. -/
theorem kept_go {α : Type} {p : Action α} (h : p.Keeps Kept) :
    Walk hmac i p (fun _ _ => True) w :=
  (Go.keeps (R := fun _ => True) h trivial (fun _ h => h) fun _ h => ⟨h.move, trivial⟩)

/-- The rows that a query hands out are rows of the table. -/
theorem of_mem_findMany {α : Type} {f : α → Bool} {order : List Nat} {t : List (Option α)}
    {rows : List (Nat × α)} (h : findMany f order t = some rows) {n : Nat} {r : α}
    (hr : (n, r) ∈ rows) : t[n]? = some (some r) := by
  unfold findMany at h
  split at h
  · obtain rfl := Option.some.inj h
    obtain ⟨⟨m, o⟩, hm, ho⟩ := List.mem_filterMap.mp hr
    obtain ⟨x, hx, he⟩ := Option.map_eq_some_iff.mp ho
    obtain ⟨rfl, rfl⟩ := Prod.mk.inj he
    obtain rfl : o = some x := hx
    exact (Table.mem_arrange.mp hm).2
  · cases h

/-- The text of an event is the text of what comes back from the database. -/
theorem canonicalJson_envelope (input : DispatchEventInput) (eventId : String) (now : Millis) :
    canonicalJson (jsonb members (input.envelope eventId now)) =
      canonicalJson (input.envelope eventId now) := by
  refine canonicalJson_jsonb members ?_
  have hkeys : ["eventId", "eventType", "occurredAt", "operatorId", "dataVersion", "data"].Nodup := by
    decide
  simp [DispatchEventInput.envelope, Value.isJson, membersAreJson, input.json, hkeys]

/-- **Queueing an event** under a secret that was handed out. -/
theorem queueDelivery_go {input : DispatchEventInput} {eventId : String} {now : Millis}
    {sub : Nat × Subscription} (h : w.Published sub.1 sub.2.rotations sub.2.secret) :
    Walk hmac i (queueDelivery hmac members input eventId (input.envelope eventId now) sub)
      (fun _ w' => Rely w w') w := by
  refine Go.lift fun w₁ hr hw c _ w₂ hrun _ => ?_
  split at hrun
  · obtain rfl := congrArg Prod.snd (Option.some.inj hrun)
    exact ⟨.refl _, fun _ => hr⟩
  · obtain rfl := congrArg Prod.snd (Option.some.inj hrun)
    refine ⟨⟨fun _ => ⟨hw.current, hw.bound, hw.past, hw.unique, fun n d hd => ?_⟩,
      fun _ hs => hs, fun r hr => ?_⟩, fun _ => hr⟩
    · rcases Table.getElem?_concat_cases (delivery_eq_some.mp hd) with hd | ⟨-, hd⟩
      · exact hw.signed n d (delivery_eq_some.mpr hd)
      · obtain rfl := Option.some.inj hd
        refine ⟨sub.2.secret, h.mono hr, ?_⟩
        exact congrArg (hmac sub.2.secret) (canonicalJson_envelope input eventId now).symm
    · rw [List.drop_length] at hr
      cases hr

/-- **Dispatching an event.** -/
theorem dispatchEvent_go {input : DispatchEventInput} :
    Walk hmac i (dispatchEvent hmac members input) (fun _ _ => True) w := by
  have hfind : Walk hmac i (Prog.lift fun _ c w =>
      let eventId := input.eventId.getD c.drawn
      (findMany (fun s => s.operatorId = input.operatorId ∧ s.enabled) c.order w.subscriptions).map
        fun subscriptions => ((eventId, input.envelope eventId w.now, subscriptions), w))
      (fun found w' => (∃ now, found.2.1 = input.envelope found.1 now) ∧
        ∀ x ∈ found.2.2, w'.Published x.1 x.2.rotations x.2.secret) w := by
    refine Go.lift fun w₁ _ hw c found w₂ hrun _ => ?_
    obtain ⟨rows, hrows, he⟩ := Option.map_eq_some_iff.mp hrun
    obtain ⟨rfl, rfl⟩ := Prod.mk.inj he
    refine ⟨.refl _, fun _ => ⟨⟨w₁.now, rfl⟩, fun x hx => ?_⟩⟩
    exact (hw.current x.1 x.2 (subscription_eq_some.mpr (of_mem_findMany hrows hx))).2
  refine Go.bind_iff.mpr (hfind.mono fun found w ⟨⟨now, he⟩, hfound⟩ => ?_)
  rw [he]
  refine Go.each (fun subs w' => ∀ x ∈ subs, w'.Published x.1 x.2.rotations x.2.secret)
    (fun x hx => hfound x (List.mem_of_mem_filter hx)) (fun x xs w hall => ?_) fun _ _ => trivial
  exact (queueDelivery_go (hall x List.mem_cons_self)).mono fun _ w' hr y hy =>
    (hall y (List.mem_cons_of_mem _ hy)).mono hr

/-- **Posting a delivery**: what is sent verifies, as its version is the one that it was signed
under. -/
theorem post_go {d : Delivery} {sub : Subscription} (hd : w.Signed hmac d)
    (hsub : sub.secretVersion = label sub.rotations) :
    Walk hmac i (post d sub) (fun _ _ => True) w := by
  refine Go.lift fun w₁ hr hw c _ w₂ hrun hp => ?_
  obtain rfl := congrArg Prod.snd (Option.some.inj hrun)
  refine ⟨⟨fun _ => ⟨hw.current, hw.bound, hw.past, hw.unique, hw.signed⟩, fun _ hs => hs,
    fun r hsent => ?_⟩, fun _ => trivial⟩
  have hsame := hp.sent r hsent
  rw [List.drop_left] at hsent
  obtain rfl := List.mem_singleton.mp hsent
  have hrot : d.signedAfter = sub.rotations := hsame
  obtain ⟨secret, hpub, hsig⟩ := hd.mono hr
  refine ⟨secret, ?_, hsig⟩
  rw [hrot] at hpub
  have hdes := hw.designated hpub
  rw [← hsub] at hdes
  exact hdes

/-- **One attempt to deliver.** -/
theorem deliver_go {deliveryId : Nat} :
    Walk hmac i (deliver deliveryId) (fun _ _ => True) w := by
  refine Go.bind_iff.mpr ((kept_go (kept_claim deliveryId)).mono fun claimed w _ => ?_)
  cases claimed with
  | false => trivial
  | true =>
      have hread : Walk hmac i (findDelivery deliveryId) (fun found w' => ∀ x, found = some x →
          w'.Signed hmac x.1 ∧ x.2.secretVersion = label x.2.rotations) w := by
        refine Go.query .refl fun w₁ _ hw x hx => ?_
        obtain ⟨d, hd, hx⟩ := Option.bind_eq_some_iff.mp hx
        obtain ⟨sub, hsub, rfl⟩ := Option.map_eq_some_iff.mp hx
        exact ⟨hw.signed deliveryId d hd, (hw.current _ sub hsub).1⟩
      refine Go.bind_iff.mpr (hread.mono fun found w hfound => ?_)
      cases found with
      | none => trivial
      | some x =>
          obtain ⟨hd, hsub⟩ := hfound x rfl
          exact Go.bind_iff.mpr ((post_go hd hsub).mono fun answer w _ =>
            kept_go (kept_recordAttempt deliveryId x.1 answer))

/-- The invariant survives a new subscription, under whose number nothing was handed out. -/
theorem Sound.subscribed (h : Sound hmac w) (operatorId url : String)
    (eventTypes : List WebhookEventType) (secret : String) :
    Sound hmac (w.subscribed operatorId url eventTypes secret) := by
  have hold : ∀ s ∈ w.published,
      s ∈ (w.subscribed operatorId url eventTypes secret).published :=
    fun s hs => List.mem_append_left _ hs
  have hnew : ∀ s ∈ (w.subscribed operatorId url eventTypes secret).published,
      s ∈ w.published ∨ s = ⟨w.subscriptions.length, "v1", secret, 0, 0⟩ :=
    fun s hs => (List.mem_append.mp hs).imp_right List.mem_singleton.mp
  refine ⟨fun id sub hsub => ?_, fun s hs => ?_, fun s hs sub hsub => ?_,
    fun s hs s' hs' hid hversion => ?_, fun id d hd => (h.signed id d hd).mono hold⟩
  · rcases Table.getElem?_concat_cases (subscription_eq_some.mp hsub) with hsub | ⟨hid, hsub⟩
    · obtain ⟨hversion, hpub⟩ := h.current id sub (subscription_eq_some.mpr hsub)
      exact ⟨hversion, hpub.mono hold⟩
    · obtain rfl := Option.some.inj hsub
      exact ⟨label_zero.symm, _, List.mem_append_right _ (List.mem_singleton_self _), hid.symm,
        label_zero.symm, rfl⟩
  · have hlen : (w.subscribed operatorId url eventTypes secret).subscriptions.length =
        w.subscriptions.length + 1 := List.length_append
    rw [hlen]
    rcases hnew s hs with hs | rfl
    · exact (h.bound s hs).trans (Nat.lt_succ_self _)
    · exact Nat.lt_succ_self _
  · rcases hnew s hs with hs | rfl
    · rcases Table.getElem?_concat_cases (subscription_eq_some.mp hsub) with hsub | ⟨hid, -⟩
      · exact h.past s hs sub (subscription_eq_some.mpr hsub)
      · exact absurd hid (h.bound s hs).ne
    · exact ⟨0, Nat.zero_le _, label_zero.symm⟩
  · rcases hnew s hs with hs | rfl
    · rcases hnew s' hs' with hs' | rfl
      · exact h.unique s hs s' hs' hid hversion
      · exact absurd hid (h.bound s hs).ne
    · rcases hnew s' hs' with hs' | rfl
      · exact absurd hid.symm (h.bound s' hs').ne
      · rfl

/-- **Subscribing.** -/
theorem subscribe_go {operatorId url : String} {eventTypes : List WebhookEventType} :
    Walk hmac i (subscribe operatorId url eventTypes) (fun _ _ => True) w := by
  refine Go.lift fun w₁ _ _ c _ w₂ hrun _ => ?_
  obtain rfl := congrArg Prod.snd (Option.some.inj hrun)
  refine ⟨⟨fun hw => hw.subscribed .., fun s hs => List.mem_append_left _ hs, fun r hr => ?_⟩,
    fun _ => trivial⟩
  have hsent : (w₁.subscribed operatorId url eventTypes c.drawn).sent = w₁.sent := rfl
  rw [hsent, List.drop_length] at hr
  cases hr

/-- **The invariant survives a rotation** that follows the last version. -/
theorem Sound.rotated (h : Sound hmac w) {existing sub : Subscription} (secret : String)
    (hsub : w.subscription id = some sub)
    (hversion : existing.secretVersion = label sub.rotations) :
    Sound hmac (w.rotated id existing sub secret) := by
  have hnext : nextVersion existing.secretVersion = label (sub.rotations + 1) := by
    rw [hversion, nextVersion_label]
  have hold : ∀ s ∈ w.published, s ∈ (w.rotated id existing sub secret).published :=
    fun s hs => List.mem_append_left _ hs
  have hnew : ∀ s ∈ (w.rotated id existing sub secret).published, s ∈ w.published ∨
      s = ⟨id, label (sub.rotations + 1), secret, existing.rotations, sub.rotations⟩ :=
    fun s hs => hnext ▸ (List.mem_append.mp hs).imp_right List.mem_singleton.mp
  -- nothing was handed out under the new version
  have hfresh : ∀ s ∈ w.published, s.subscriptionId = id →
      s.secretVersion ≠ label (sub.rotations + 1) := by
    intro s hs hid hlabel
    obtain ⟨n, hn, hs⟩ := h.past s hs sub (hid ▸ hsub)
    have heq := label_inj (hs.symm.trans hlabel)
    omega
  refine ⟨fun n x hx => ?_, fun s hs => ?_, fun s hs x hx => ?_, fun s hs s' hs' hid hv => ?_,
    fun n d hd => (h.signed n d hd).mono hold⟩
  · rcases subscription_set_cases (w := w) hx with ⟨rfl, rfl⟩ | ⟨-, hx⟩
    · exact ⟨hnext, _, List.mem_append_right _ (List.mem_singleton_self _), rfl, hnext, rfl⟩
    · obtain ⟨hx, hpub⟩ := h.current n x hx
      exact ⟨hx, hpub.mono hold⟩
  · have hlen : (w.rotated id existing sub secret).subscriptions.length = w.subscriptions.length :=
      List.length_set
    rw [hlen]
    rcases hnew s hs with hs | rfl
    · exact h.bound s hs
    · exact (List.getElem?_eq_some_iff.mp (subscription_eq_some.mp hsub)).1
  · rcases hnew s hs with hs | rfl
    · rcases subscription_set_cases (w := w) hx with ⟨hid, rfl⟩ | ⟨-, hx⟩
      · obtain ⟨n, hn, hs⟩ := h.past s hs sub (hid ▸ hsub)
        exact ⟨n, hn.trans (Nat.le_succ _), hs⟩
      · exact h.past s hs x hx
    · rcases subscription_set_cases (w := w) hx with ⟨-, rfl⟩ | ⟨hne, -⟩
      · exact ⟨_, Nat.le_refl _, rfl⟩
      · exact absurd rfl hne
  · rcases hnew s hs with hs | rfl
    · rcases hnew s' hs' with hs' | rfl
      · exact h.unique s hs s' hs' hid hv
      · exact absurd hv (hfresh s hs hid)
    · rcases hnew s' hs' with hs' | rfl
      · exact absurd hv.symm (hfresh s' hs' hid.symm)
      · rfl

/-- **Rotating a secret.** -/
theorem rotateSecret_go {operatorId : String} :
    Walk hmac i (rotateSecret operatorId id) (fun _ _ => True) w := by
  have hread : Walk hmac i (Prog.query fun w => w.subscription id) (fun existing _ =>
      ∀ x, existing = some x → x.secretVersion = label x.rotations) w :=
    Go.query .refl fun w₁ _ hw x hx => (hw.current id x hx).1
  refine Go.bind_iff.mpr (hread.mono fun existing w hexisting => ?_)
  cases existing with
  | none => trivial
  | some existing =>
      dsimp only
      split
      · trivial
      · refine Go.lift fun w₁ _ _ c _ w₂ hrun hp => ?_
        obtain rfl := congrArg Prod.snd (Option.some.inj hrun)
        dsimp only at hp ⊢
        cases hsub : w₁.subscription id with
        | none => exact ⟨.refl _, fun _ => trivial⟩
        | some sub =>
            simp only [hsub] at hp ⊢
            split
            · rename_i hlen
              rw [if_pos hlen] at hp
              -- nobody rotated the secret since its version was read
              have hsame : existing.rotations = sub.rotations := by
                refine hp.published ⟨id, nextVersion existing.secretVersion, c.drawn,
                  existing.rotations, sub.rotations⟩ ?_
                have hpub : (w₁.rotated id existing sub c.drawn).published = w₁.published ++
                    [⟨id, nextVersion existing.secretVersion, c.drawn, existing.rotations,
                      sub.rotations⟩] := rfl
                rw [hpub, List.drop_left]
                exact List.mem_singleton_self _
              refine ⟨⟨fun hw => hw.rotated c.drawn hsub (hsame ▸ hexisting existing rfl),
                fun s hs => List.mem_append_left _ hs, fun r hr => ?_⟩, fun _ => trivial⟩
              have hsent : (w₁.rotated id existing sub c.drawn).sent = w₁.sent := rfl
              rw [hsent, List.drop_length] at hr
              cases hr
            · exact ⟨.refl _, fun _ => trivial⟩

/-! ## Runs -/

/-- **The rules of all calls fit together.** -/
def conduct (hmac : String → Text → String) (members : MemberOrder) :
    Discipline (webhookServer hmac members) SecretsStay where
  inv := Sound hmac
  permit _ _ := Undisturbed
  envPermit _ := Undisturbed
  envFits _ _ _ _ := True
  compat _ _ := True
  rely _ _ := Rely
  guar _ _ := Move hmac
  permit_of h _ := h
  envPermit_of h := h
  envFits_of _ _ _ _ := trivial
  compat_of _ _ _ _ _ := ⟨trivial, trivial⟩
  rely_refl _ _ _ := fun _ hs => hs
  rely_trans _ _ _ _ _ h h' := fun s hs => h' s (h s hs)
  guar_inv hw _ h := h.sound hw
  env_inv {x w w'} hw _ h := (kept_env h).move.sound hw
  guar_rely _ _ _ _ h := h.published
  env_rely _ _ _ h _ := fun s hs => by rwa [(kept_env h).published]
  code_go {p k q} _ _ _ := by
    cases k with
    | dispatchEvent input => exact dispatchEvent_go
    | tick => exact kept_go kept_tick
    | deliver deliveryId => exact deliver_go
    | replay operatorId deliveryId => exact kept_go (kept_replayDelivery operatorId deliveryId)
    | subscribe operatorId url eventTypes => exact subscribe_go
    | patch operatorId id change => exact kept_go (kept_patch operatorId id change)
    | delete operatorId id => exact kept_go (kept_delete operatorId id)
    | rotateSecret operatorId id => exact rotateSecret_go

/-- Nothing was handed out without subscriptions. -/
theorem initial_sound (now : Millis) : Sound hmac (initial now).world := by
  refine ⟨fun id sub hs => ?_, (fun s hs => nomatch hs), (fun s hs => nomatch hs),
    (fun s hs => nomatch hs), fun id d hd => ?_⟩
  · simp [initial, World.subscription] at hs
  · simp [initial, World.delivery] at hd

/-- **Webhooks verify at the receiver**: for every signature function, every order that the database
gives the members of objects, and every run of subscriptions, dispatches of JSON events, rotations,
polls, attempts, replays and restarts in which no secret is rotated between the signature and the
request, and rotations of one subscription do not overlap, every request that a step sends verifies
over its body under the secret that its version designates. -/
theorem signatures_verify {hmac : String → Text → String} {members : MemberOrder} {now : Millis}
    (h : (webhookServer hmac members).Run SecretsStay (initial now) p) :
    (webhookServer hmac members).Run (SignaturesVerify hmac) (initial now) p := by
  have hok : (conduct hmac members).Ok (initial now) :=
    Discipline.ok_of_no_tasks (initial_sound now)
  induction h with
  | start => exact .start
  | @step q r e hrun hs hA ih =>
      refine .step e ih hs fun request hsent => ?_
      have hq := hok.run hrun
      obtain ⟨-, ⟨i, _, t, -, -, -, -, hmove⟩ | ⟨x, -, -, hw⟩ | hw⟩ := hq.step hs hA
      · exact Move.sent hmove request hsent
      · rw [(kept_env hw).sent, List.drop_length] at hsent
        cases hsent
      · rw [hw, List.drop_length] at hsent
        cases hsent

namespace Sample

/-- The secret is rotated. -/
def rotating : List Happening :=
  .call (.rotateSecret "op" 0) :: List.replicate 2 (.run 4 (choice "b" .networkError))

end Sample

/-- A request is sent. -/
theorem signatures_verify_sent : ∃ p,
    (webhookServer Sample.sign .byLength).Run SecretsStay (initial 0) p ∧
      p.world.sent.length = 1 ∧
        (webhookServer Sample.sign .byLength).Run (SignaturesVerify Sample.sign) (initial 0) p := by
  have h : (((webhookServer Sample.sign .byLength).exec SecretsStay (initial 0)
      (Sample.dispatching ++ List.replicate 3 (.run 3 (Sample.choice "" (.status 200))))).map
        fun p => p.world.sent.length) = some 1 := by
    decide +kernel
  obtain ⟨p, hp, hv⟩ := System.Run.of_exec_map h
  exact ⟨p, hp, hv, signatures_verify hp⟩

/-- **A request names the version of a secret that it is not signed under**: the secret was rotated
after the event was dispatched. -/
theorem signature_outdated : ∃ p q,
    (webhookServer Sample.sign .byLength).Run Anything (initial 0) p ∧
      (webhookServer Sample.sign .byLength).step p (.run 3 (Sample.choice "" (.status 200))) =
        some q ∧
          ¬ SignaturesVerify Sample.sign p (.run 3 (Sample.choice "" (.status 200))) q := by
  have h : (((webhookServer Sample.sign .byLength).exec Anything (initial 0)
      (Sample.dispatching ++ Sample.rotating ++
        List.replicate 2 (.run 3 (Sample.choice "" .networkError)))).bind fun p =>
      ((webhookServer Sample.sign .byLength).step p (.run 3 (Sample.choice "" (.status 200)))).map
        fun q => (q.world.sent.drop p.world.sent.length).map fun r =>
          (p.world.designated r.subscriptionId r.signatureVersion,
            decide (r.signature = Sample.sign "b" r.body))) = some [(some "b", false)] := by
    decide +kernel
  obtain ⟨p, hp, hq⟩ := Option.bind_eq_some_iff.mp h
  obtain ⟨q, hq, hv⟩ := Option.map_eq_some_iff.mp hq
  obtain ⟨r, hr, he⟩ := List.map_eq_singleton_iff.mp hv
  obtain ⟨hdes, hsig⟩ := Prod.mk.inj he
  refine ⟨p, q, .of_exec hp, hq, fun hv => ?_⟩
  obtain ⟨secret, hsecret, hverifies⟩ := hv r (by rw [hr]; exact List.mem_singleton_self _)
  rw [hdes] at hsecret
  obtain rfl := Option.some.inj hsecret
  exact of_decide_eq_false hsig hverifies

end YantraRgs.Webhooks
