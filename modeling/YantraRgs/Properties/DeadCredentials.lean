import YantraRgs.Await.RelyGuarantee
import YantraRgs.Services.CredentialRotation

/-! # No signature with a dead credential

An adapter keeps the credential that it was built from: an engine's for as long as the engine lives,
the one of an attempt until its request is signed. Nobody looks at the credential again, and an
adapter is built from a credential whatever its end date. So a request is signed with a credential in
force as long as the credentials in use stay in force.

* **`SignsInForce`** — the property of one step.
* **`StaysInForce`** — the condition on one step.
* **`signs_in_force`** — the property along every run that meets it. -/

namespace YantraRgs.CredentialRotation

open Await

variable {i j : Nat} {p q : State} {w w' : World}

namespace World

/-- The credentials of the adapters in use: those that calls hold, and those of the engines. -/
def inUse (w : World) : List Nat :=
  w.held.map (fun x => x.2.credential) ++
    w.engines.filterMap fun engine =>
      if engine.alive then engine.adapter.map HttpWalletAdapter.credential else none

/-- A credential is neither revoked nor at its end date. -/
def InForce (w : World) (n : Nat) : Prop :=
  ∃ c, w.credentials.rows[n]? = some c ∧ c.revokedAt = none ∧ ∀ notAfter ∈ c.notAfter, w.now < notAfter

/-- What an adapter is built from is not revoked. -/
def Unrevoked (w : World) (n : Nat) : Prop :=
  ∃ c, w.credentials.rows[n]? = some c ∧ c.revokedAt = none

end World

/-- **One step signs requests with credentials in force only.** -/
def SignsInForce (p : State) (_ : Happening) (q : State) : Prop :=
  ∀ s ∈ q.world.signed.drop p.world.signed.length, s.at' = p.world.now ∧ p.world.InForce s.credential

/-- **The condition on one step**: no credential in use is revoked, and none in use is at its end date
afterwards. -/
structure Spares (w w' : World) : Prop where
  revoked : ∀ n ∈ w.inUse, ∀ c ∈ w.credentials.rows[n]?, c.revokedAt = none →
    ∀ c' ∈ w'.credentials.rows[n]?, c'.revokedAt = none
  ended : ∀ n ∈ w'.inUse, ∀ c ∈ w'.credentials.rows[n]?, ∀ notAfter ∈ c.notAfter, w'.now < notAfter

/-- The condition on a step of a run. -/
def StaysInForce (p : State) (_ : Happening) (q : State) : Prop := Spares p.world q.world

instance (p : State) (e : Happening) (q : State) : Decidable (StaysInForce p e q) :=
  decidable_of_iff ((∀ n ∈ p.world.inUse, ∀ c ∈ p.world.credentials.rows[n]?, c.revokedAt = none →
    ∀ c' ∈ q.world.credentials.rows[n]?, c'.revokedAt = none) ∧
      ∀ n ∈ q.world.inUse, ∀ c ∈ q.world.credentials.rows[n]?, ∀ notAfter ∈ c.notAfter,
        q.world.now < notAfter) ⟨fun h => ⟨h.1, h.2⟩, fun h => ⟨h.1, h.2⟩⟩

/-- **The invariant**: every credential in use is in force. -/
def Sound (w : World) : Prop := ∀ n ∈ w.inUse, w.InForce n

/-- **One action** of call `i`. -/
structure Move (i : Nat) (w w' : World) : Prop where
  signed : w'.signed = w.signed ∨
    ∃ n, (i, ⟨n⟩) ∈ w.held ∧ w'.signed = w.signed ++ [⟨n, w.now⟩]
  inUse : ∀ n ∈ w'.inUse, n ∈ w.inUse ∨ w'.Unrevoked n
  others : ∀ x ∈ w.held, x.1 ≠ i → x ∈ w'.held
  rows : ∀ (n : Nat) (c : Credential), w.credentials.rows[n]? = some c →
    ∃ c', w'.credentials.rows[n]? = some c'

/-- What call `i` may rely on: the adapters that it holds stay with it. -/
def Rely (i : Nat) (w w' : World) : Prop := ∀ x ∈ w.held, x.1 = i → x ∈ w'.held

theorem mem_inUse {n : Nat} : n ∈ w.inUse ↔ (∃ i, (i, ⟨n⟩) ∈ w.held) ∨
    ∃ engine ∈ w.engines, engine.alive = true ∧ engine.adapter = some ⟨n⟩ := by
  simp only [World.inUse, List.mem_append, List.mem_map, List.mem_filterMap]
  constructor
  · rintro (⟨⟨i, a⟩, hx, rfl⟩ | ⟨engine, he, hn⟩)
    · exact .inl ⟨i, hx⟩
    · split at hn
      · obtain ⟨a, ha, rfl⟩ := Option.map_eq_some_iff.mp hn
        exact .inr ⟨engine, he, ‹_›, ha⟩
      · cases hn
  · rintro (⟨i, hx⟩ | ⟨engine, he, hl, ha⟩)
    · exact .inl ⟨_, hx, rfl⟩
    · exact .inr ⟨engine, he, by simp [hl, ha]⟩

/-- The invariant is kept when the credentials in use were in use before, or are not revoked. -/
theorem Sound.next (hw : Sound w) (hp : Spares w w')
    (hrows : ∀ (n : Nat) (c : Credential), w.credentials.rows[n]? = some c →
      ∃ c', w'.credentials.rows[n]? = some c')
    (hn : ∀ n ∈ w'.inUse, n ∈ w.inUse ∨ w'.Unrevoked n) : Sound w' := by
  intro n hin
  rcases hn n hin with hold | ⟨c, hc, hrev⟩
  · obtain ⟨c, hc, hrev, -⟩ := hw n hold
    obtain ⟨c', hc'⟩ := hrows n c hc
    exact ⟨c', hc', hp.revoked n hold c hc hrev c' hc', hp.ended n hin c' hc'⟩
  · exact ⟨c, hc, hrev, hp.ended n hin c hc⟩

/-- An action that leaves the adapters and the signatures alone. -/
theorem Move.of_credentials {credentials : Credentials}
    (hrows : ∀ (n : Nat) (c : Credential), w.credentials.rows[n]? = some c →
      ∃ c', credentials.rows[n]? = some c') : Move i w { w with credentials } :=
  ⟨.inl rfl, fun _ hn => .inl hn, fun _ hx _ => hx, hrows⟩

theorem Move.refl (w : World) : Move i w w :=
  ⟨.inl rfl, fun _ hn => .inl hn, fun _ hx _ => hx, fun _ c hc => ⟨c, hc⟩⟩

/-! ## The calls keep to the rules -/

/-- The rules for call `i`. -/
def rules (i : Nat) : Rules World := ⟨Sound, Spares, Rely i, Move i⟩

/-- Call `i` may go on with a program. -/
abbrev Walk {α : Type} (i : Nat) (p : Action α) (Q : α → World → Prop) (w : World) : Prop :=
  Go (rules i) i p Q w

theorem query_go {α : Type} (f : World → α) : Walk i (Prog.query f) (fun _ _ => True) w :=
  Go.query (fun w => .refl w) fun _ _ _ => trivial

/-- A rotation. -/
theorem rotateCredential_go {input : RotateCredentialInput} :
    Walk i (rotateCredential input) (fun _ _ => True) w := by
  refine Go.lift fun w₁ _ _ c a w₂ hrun _ => ?_
  split at hrun
  · split at hrun
    · rename_i t hrot
      obtain rfl := congrArg Prod.snd (Option.some.inj hrun)
      refine ⟨.of_credentials fun n x hx => ?_, fun _ => trivial⟩
      obtain ⟨t₁, hins, rfl⟩ := Option.map_eq_some_iff.mp hrot
      unfold Credentials.insert at hins
      split at hins
      · cases hins
      · obtain rfl := Option.some.inj hins
        have hx' := Table.getElem?_concat_of_some (x := w₁.newCredential input c.suffix) hx
        cases c.found with
        | none => exact ⟨x, hx'⟩
        | some m =>
            simp only [Credentials.retire, List.getElem?_modify, hx', Option.map_eq_map,
              Option.map_some]
            exact ⟨_, rfl⟩
    · obtain rfl := congrArg Prod.snd (Option.some.inj hrun)
      exact ⟨.refl _, fun _ => trivial⟩
  · cases hrun

/-- A revocation. -/
theorem revokeCredentialImmediately_go {id : Nat} :
    Walk i (revokeCredentialImmediately id) (fun _ _ => True) w := by
  refine Go.bind_iff.mpr ((query_go _).mono fun existing w _ => ?_)
  cases existing with
  | none => trivial
  | some existing =>
      dsimp only
      split
      · trivial
      · refine Go.modify fun w₁ _ _ _ => ⟨.of_credentials fun n x hx => ?_, fun _ => trivial⟩
        simp only [Credentials.revoke, List.getElem?_modify, hx, Option.map_eq_map, Option.map_some]
        exact ⟨_, rfl⟩

/-- **Building an adapter**: the call holds it. -/
theorem buildAdapter_go {operatorId : OperatorId} :
    Walk i (buildAdapter operatorId) (fun adapter w' => ∀ a, adapter = some a → (i, a) ∈ w'.held)
      w := by
  refine Go.bind_iff.mpr ((query_go _).mono fun operator w _ => ?_)
  cases operator with
  | none => exact fun _ ha => nomatch ha
  | some operator =>
      refine Go.lift fun w₁ _ _ c a w₂ hrun _ => ?_
      split at hrun
      · rename_i hfinds
        split at hrun
        · rename_i n url hfound hurl
          obtain ⟨rfl, rfl⟩ := Prod.mk.inj (Option.some.inj hrun)
          rw [hfound] at hfinds
          have hn : n ∈ w₁.credentials.newest _ := of_decide_eq_true hfinds
          simp only [Credentials.newest, List.mem_map, List.mem_filter] at hn
          obtain ⟨⟨m, x⟩, ⟨hm, -⟩, rfl⟩ := hn
          obtain ⟨hx, hsigns⟩ := Table.mem_select.mp hm
          simp only [Credential.signs, decide_eq_true_eq] at hsigns
          refine ⟨⟨.inl rfl, fun n hn => ?_, fun _ hx _ => List.mem_append_left _ hx,
            fun _ c hc => ⟨c, hc⟩⟩, fun _ a ha => ?_⟩
          · rcases mem_inUse.mp hn with ⟨j, hj⟩ | hengine
            · rcases List.mem_append.mp hj with hj | hj
              · exact .inl (mem_inUse.mpr (.inl ⟨j, hj⟩))
              · obtain ⟨-, rfl⟩ : j = i ∧ n = m := by simpa using hj
                exact .inr ⟨x, hx, hsigns.2.2⟩
            · exact .inl (mem_inUse.mpr (.inr hengine))
          · obtain rfl := Option.some.inj ha
            exact List.mem_append_right _ (List.mem_singleton_self _)
        · obtain ⟨rfl, rfl⟩ := Prod.mk.inj (Option.some.inj hrun)
          exact ⟨.refl _, fun _ _ ha => nomatch ha⟩
      · cases hrun

/-- **Signing a request** with an adapter that the call holds. -/
theorem sign_go {adapter : HttpWalletAdapter} (h : (i, adapter) ∈ w.held) :
    Walk i (sign adapter) (fun _ _ => True) w := by
  refine Go.request fun w₁ hr _ _ => ⟨⟨.inr ⟨adapter.credential, hr _ h rfl, rfl⟩, fun n hn => ?_,
    fun x hx hi => List.mem_filter.mpr ⟨hx, by simpa using hi⟩, fun _ c hc => ⟨c, hc⟩⟩,
    fun _ => trivial⟩
  rcases mem_inUse.mp hn with ⟨j, hj⟩ | hengine
  · exact .inl (mem_inUse.mpr (.inl ⟨j, List.mem_of_mem_filter hj⟩))
  · exact .inl (mem_inUse.mpr (.inr hengine))

/-- Making an engine: it takes over the adapter that the call holds. -/
theorem ensure_go {operatorId : OperatorId} :
    Walk i (ensure operatorId) (fun _ _ => True) w := by
  refine Go.bind_iff.mpr (buildAdapter_go.mono fun adapter w h => ?_)
  refine Go.request fun w₁ hr _ _ => ⟨⟨.inl rfl, fun n hn => ?_,
    fun x hx hi => List.mem_filter.mpr ⟨hx, by simpa using hi⟩, fun _ c hc => ⟨c, hc⟩⟩,
    fun _ => trivial⟩
  rcases mem_inUse.mp hn with ⟨j, hj⟩ | ⟨engine, he, hl, ha⟩
  · exact .inl (mem_inUse.mpr (.inl ⟨j, List.mem_of_mem_filter hj⟩))
  · rcases List.mem_append.mp he with he | he
    · exact .inl (mem_inUse.mpr (.inr ⟨engine, he, hl, ha⟩))
    · obtain rfl := List.mem_singleton.mp he
      exact .inl (mem_inUse.mpr (.inl ⟨i, hr _ (h _ ha) rfl⟩))

/-- A wallet call of an engine. -/
theorem walletCall_go {n : Nat} : Walk i (walletCall n) (fun _ _ => True) w := by
  have htake : Walk i (Prog.request fun i w =>
      let adapter := (w.engines[n]?.bind fun engine => if engine.alive then engine.adapter else none)
      (adapter, { w with held := w.held ++ (adapter.toList.map fun a => (i, a)) }))
      (fun adapter w' => ∀ a, adapter = some a → (i, a) ∈ w'.held) w := by
    refine Go.request fun w₁ _ _ _ => ⟨⟨.inl rfl, fun m hm => ?_,
      fun x hx _ => List.mem_append_left _ hx, fun _ c hc => ⟨c, hc⟩⟩, fun _ a ha => ?_⟩
    · rcases mem_inUse.mp hm with ⟨j, hj⟩ | hengine
      · rcases List.mem_append.mp hj with hj | hj
        · exact .inl (mem_inUse.mpr (.inl ⟨j, hj⟩))
        · -- the adapter is the engine's
          obtain ⟨a, ha, he⟩ := List.mem_map.mp hj
          obtain ⟨engine, hengine, ha⟩ := Option.bind_eq_some_iff.mp (Option.mem_toList.mp ha)
          split at ha
          · refine .inl (mem_inUse.mpr (.inr ⟨engine, List.mem_of_getElem? hengine, ‹_›, ?_⟩))
            rw [ha]
            exact congrArg some (Prod.mk.inj he).2
          · cases ha
      · exact .inl (mem_inUse.mpr (.inr hengine))
    · refine List.mem_append_right _ (List.mem_map.mpr ⟨a, ?_, rfl⟩)
      exact Option.mem_toList.mpr ha
  refine Go.bind_iff.mpr (htake.mono fun adapter w h => ?_)
  cases adapter with
  | none => trivial
  | some adapter => exact sign_go (h adapter rfl)

/-- An attempt of a queued wallet call. -/
theorem runJob_go {operatorId : OperatorId} : Walk i (runJob operatorId) (fun _ _ => True) w := by
  refine Go.bind_iff.mpr (buildAdapter_go.mono fun adapter w h => ?_)
  cases adapter with
  | none => trivial
  | some adapter => exact sign_go (h adapter rfl)

/-! ## Runs -/

/-- What happens outside takes no credential into use. -/
theorem inUse_outside {x : Outside} {n : Nat} (h : n ∈ (w.outside x).inUse) : n ∈ w.inUse := by
  cases x with
  | elapse ms => exact h
  | close m =>
      rcases mem_inUse.mp h with hheld | ⟨engine, he, hl, ha⟩
      · exact mem_inUse.mpr (.inl hheld)
      · rcases Table.mem_modify_cases he with he | ⟨engine', he, rfl⟩
        · exact mem_inUse.mpr (.inr ⟨engine, he, hl, ha⟩)
        · cases hl

/-- **The rules of all calls fit together.** -/
def conduct : Discipline credentialServer StaysInForce where
  inv := Sound
  permit _ _ := Spares
  envPermit _ := Spares
  envFits _ _ _ _ := True
  compat _ _ := True
  rely i _ := Rely i
  guar i _ := Move i
  permit_of h _ := h
  envPermit_of h := h
  envFits_of _ _ _ _ := trivial
  compat_of _ _ _ _ _ := ⟨trivial, trivial⟩
  rely_refl _ _ _ := fun _ hx _ => hx
  rely_trans _ _ _ _ _ h h' := fun x hx hi => h' x (h x hx hi) hi
  guar_inv hw hp h := hw.next hp h.rows h.inUse
  env_inv {x w w'} hw hp h := by
    obtain rfl : w.outside x = w' := Option.some.inj h
    exact hw.next hp (fun n c hc => by cases x <;> exact ⟨c, hc⟩) fun n hn => .inl (inUse_outside hn)
  guar_rely hij _ _ _ h := fun x hx hi => h.others x hx (hi ▸ hij)
  env_rely {i k x w w'} _ _ _ h _ := by
    obtain rfl : w.outside x = w' := Option.some.inj h
    cases x <;> exact fun _ hx _ => hx
  code_go {p k q} _ _ _ := by
    cases k with
    | rotate input => exact rotateCredential_go
    | revoke id => exact revokeCredentialImmediately_go
    | ensure operatorId => exact ensure_go
    | walletCall n => exact walletCall_go
    | runJob operatorId => exact runJob_go

/-- **No signature with a dead credential**: in every run of rotations, revocations, engine starts,
wallet calls and attempts of queued calls in which no credential in use is revoked or comes to its
end date, every step signs requests with credentials in force only. -/
theorem signs_in_force {now : Millis} {operators : List Operator} {credentials : Credentials}
    (h : credentialServer.Run StaysInForce (initial now operators credentials) p) :
    credentialServer.Run SignsInForce (initial now operators credentials) p := by
  have hok : conduct.Ok (initial now operators credentials) :=
    Discipline.ok_of_no_tasks fun n hn => nomatch hn
  induction h with
  | start => exact .start
  | @step q r e hrun hs hA ih =>
      refine .step e ih hs fun s hsigned => ?_
      have hq := hok.run hrun
      obtain ⟨-, ⟨i, _, t, -, -, -, -, hmove⟩ | ⟨x, -, -, hw⟩ | hw⟩ := hq.step hs hA
      · rcases Move.signed hmove with hsame | ⟨n, hheld, hnew⟩
        · rw [hsame, List.drop_length] at hsigned
          cases hsigned
        · rw [hnew, List.drop_left] at hsigned
          obtain rfl := List.mem_singleton.mp hsigned
          exact ⟨rfl, hq.inv n (mem_inUse.mpr (.inl ⟨i, hheld⟩))⟩
      · have hsame : r.world.signed = q.world.signed := by
          obtain hr : q.world.outside x = r.world := Option.some.inj hw
          rw [← hr]
          cases x <;> rfl
        rw [hsame, List.drop_length] at hsigned
        cases hsigned
      · rw [hw, List.drop_length] at hsigned
        cases hsigned

namespace Sample

/-- An operator with a wallet. -/
def wallets : List Operator := [⟨"op", .active, some "https://wallet"⟩]

/-- The credential that the server signs its wallet calls with. -/
def outbound : Credentials := ⟨[⟨0, .walletHmacOutbound, "out", none, none, 0, ""⟩], by decide⟩

/-- An engine is made, and it is about to sign a wallet call. -/
def calling : List Happening :=
  .call (.ensure 0) :: List.replicate 3 (.run 0 ⟨some 0, ""⟩) ++
    [.call (.walletCall 0), .run 1 ⟨none, ""⟩]

/-- The credential is revoked meanwhile. -/
def revoking : List Happening := .call (.revoke 0) :: List.replicate 2 (.run 2 ⟨none, ""⟩)

end Sample

/-- An engine signs a wallet call. -/
theorem signs_in_force_calling : ∃ p,
    credentialServer.Run StaysInForce (initial 0 Sample.wallets Sample.outbound) p ∧
      p.world.signed = [⟨0, 0⟩] ∧
        credentialServer.Run SignsInForce (initial 0 Sample.wallets Sample.outbound) p := by
  have h : ((credentialServer.exec StaysInForce (initial 0 Sample.wallets Sample.outbound)
      (Sample.calling ++ [.run 1 ⟨none, ""⟩])).map fun p => p.world.signed) = some [⟨0, 0⟩] := by
    decide +kernel
  obtain ⟨p, hp, hv⟩ := System.Run.of_exec_map h
  exact ⟨p, hp, hv, signs_in_force hp⟩

/-- **An engine signs with a revoked credential**: its adapter was built before. -/
theorem signs_revoked : ∃ p q,
    credentialServer.Run Anything (initial 0 Sample.wallets Sample.outbound) p ∧
      credentialServer.step p (.run 1 ⟨none, ""⟩) = some q ∧
        ¬ SignsInForce p (.run 1 ⟨none, ""⟩) q := by
  have h : ((credentialServer.exec Anything (initial 0 Sample.wallets Sample.outbound)
      (Sample.calling ++ Sample.revoking)).bind fun p =>
        (credentialServer.step p (.run 1 ⟨none, ""⟩)).map fun q =>
          (q.world.signed.drop p.world.signed.length,
            p.world.credentials.rows[0]?.map Credential.revokedAt)) =
              some ([⟨0, 0⟩], some (some 0)) := by
    decide +kernel
  obtain ⟨p, hp, hq⟩ := Option.bind_eq_some_iff.mp h
  obtain ⟨q, hq, hv⟩ := Option.map_eq_some_iff.mp hq
  obtain ⟨hsigned, hrevoked⟩ := Prod.mk.inj hv
  refine ⟨p, q, .of_exec hp, hq, fun hs => ?_⟩
  obtain ⟨-, c, hc, hrev, -⟩ := hs ⟨0, 0⟩ (by rw [hsigned]; exact List.mem_singleton_self _)
  rw [hc, Option.map_some, hrev] at hrevoked
  cases hrevoked

end YantraRgs.CredentialRotation
