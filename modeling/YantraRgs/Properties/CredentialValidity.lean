import YantraRgs.Services.CredentialRotation

/-! # The validity of credentials

A rotation gives the newest active credential an end date, whether it has one already or not. After
the newest credential was revoked, the newest active one is an older one that is in its grace window,
and the next rotation moves its end date out.

* **`Shrinks`** — what one step must not do.
* **`Retires`** — the condition on one step.
* **`validity_shrinks_iff`** — the two agree along every list of events. -/

namespace YantraRgs.CredentialRotation

open Await

variable {p q : State} {w w' : World} {i : Nat} {t : Credentials}

/-- The credentials of an operator and a type that are not revoked and have no end date. -/
def World.openEnded (w : World) (operatorId : OperatorId) (type : CredentialType) : List Nat :=
  Table.ids (fun c => c.operatorId = operatorId ∧ c.type = type ∧ c.revokedAt = none ∧
    c.notAfter = none) w.credentials.rows

/-- At most one credential of an operator and a type is not revoked and has no end date. -/
def OneOpenEnded (w : World) : Prop :=
  ∀ operatorId type, ∀ m ∈ w.openEnded operatorId type, ∀ n ∈ w.openEnded operatorId type, m = n

/-- **Validity only shrinks** in one step: a credential that was there is acceptable only when it was
before, and at most one of an operator and a type has no end date. -/
structure Shrinks (p : State) (_ : Happening) (q : State) : Prop where
  accepted : ∀ c ∈ p.world.credentials.rows, ∀ now, (q.world.operatorAuth c.kid now).isOk = true →
    (p.world.operatorAuth c.kid now).isOk = true
  one : OneOpenEnded q.world

/-- The middleware may accept a credential as long as it is neither revoked nor past its end date. -/
def Credential.inbound (operators : List Operator) (c : Credential) : Bool :=
  c.type = .apiKeyInbound ∧ operators[c.operatorId]?.any fun o => o.status ≠ .terminated

/-- **The condition on a rotation**: it replaces the credential that has no end date, when there is
one, and it does not move out the end date of one that the middleware may accept. -/
def World.Retires (w : World) (input : RotateCredentialInput) (found : Option Nat) : Prop :=
  (∀ n ∈ w.openEnded input.operatorId input.type, found = some n) ∧
    ∀ n ∈ found, ∀ c ∈ w.credentials.rows[n]?, c.inbound w.operators = true →
      ∀ notAfter ∈ c.notAfter, w.now + input.grace ≤ notAfter

/-- The rotation that call `i` is about to make. -/
def rotation? (p : State) (i : Nat) : Option RotateCredentialInput :=
  match p.tasks[i]? with
  | some ⟨.rotate input, .act _ _⟩ => some input
  | _ => none

/-- **The condition on one step**: every rotation that takes effect meets the condition. -/
def Retires (p : State) (e : Happening) (_ : State) : Prop :=
  match e with
  | .run i c => ∀ input ∈ rotation? p i, (p.world.rotated input c.found c.suffix).isSome = true →
      p.world.Retires input c.found
  | _ => True

instance (w : World) (input : RotateCredentialInput) (found : Option Nat) :
    Decidable (w.Retires input found) :=
  inferInstanceAs (Decidable (_ ∧ _))

instance (p : State) (e : Happening) (q : State) : Decidable (Retires p e q) := by
  unfold Retires
  split
  · infer_instance
  · infer_instance

/-! ## The table -/

theorem rows_insert {c : Credential} {t' : Credentials} (h : t.insert c = some t') :
    t'.rows = t.rows ++ [c] := by
  unfold Credentials.insert at h
  split at h
  · cases h
  · exact congrArg Credentials.rows (Option.some.inj h).symm

/-- The row of a key id is the one that a lookup finds. -/
theorem find_kid {n : Nat} {c : Credential} (hn : t.rows[n]? = some c) :
    t.rows.find? (fun x => x.kid = c.kid) = some c := by
  cases hf : t.rows.find? (fun x => x.kid = c.kid) with
  | none =>
      have := List.find?_eq_none.mp hf c (List.mem_of_getElem? hn)
      simp at this
  | some x =>
      have hx := List.mem_of_find?_eq_some hf
      have hk : x.kid = c.kid := by simpa using List.find?_some hf
      rw [List.inj_on_of_nodup_map t.kids hx (List.mem_of_getElem? hn) hk]

/-- What the middleware makes of a credential at a place of the table. -/
theorem operatorAuth_isOk {n : Nat} {c : Credential} {now : Millis}
    (hn : w.credentials.rows[n]? = some c) :
    (w.operatorAuth c.kid now).isOk = (c.refused w.operators now).isNone := by
  unfold World.operatorAuth
  rw [find_kid hn]
  cases hr : c.refused w.operators now <;> simp [Except.isOk, Except.toBool, hr]

/-- A credential is acceptable when it is inbound, not revoked and not past its end date. -/
theorem refused_eq_none {operators : List Operator} {now : Millis} {c : Credential} :
    c.refused operators now = none ↔
      c.inbound operators = true ∧ c.revokedAt = none ∧ ∀ notAfter ∈ c.notAfter, now ≤ notAfter := by
  unfold Credential.refused Credential.inbound
  cases hop : operators[c.operatorId]? with
  | none =>
      split
      · simp
      · split <;> simp
  | some o =>
      by_cases ht : c.type = .apiKeyInbound
      · by_cases hr : c.revokedAt = none
        · cases hna : c.notAfter with
          | none => by_cases ho : o.status = .terminated <;> simp [ht, hr, ho]
          | some notAfter =>
              by_cases hlt : notAfter < now
              · simp [ht, hr, hlt, Nat.not_le.mpr hlt]
              · by_cases ho : o.status = .terminated <;> simp [ht, hr, ho, hlt, Nat.not_lt.mp hlt]
        · simp [ht, hr, Option.isSome_iff_ne_none]
      · simp [ht]

theorem mem_openEnded {operatorId : OperatorId} {type : CredentialType} {n : Nat} :
    n ∈ w.openEnded operatorId type ↔ ∃ c, w.credentials.rows[n]? = some c ∧
      c.operatorId = operatorId ∧ c.type = type ∧ c.revokedAt = none ∧ c.notAfter = none := by
  simp [World.openEnded]

/-- What a query hands out is there. -/
theorem finds_some {f : Credential → Bool} {n : Nat} (h : t.finds f (some n) = true) :
    ∃ c, t.rows[n]? = some c ∧ f c = true := by
  have hn : n ∈ t.newest f := of_decide_eq_true h
  simp only [Credentials.newest, List.mem_map, List.mem_filter] at hn
  obtain ⟨⟨m, c⟩, ⟨hm, -⟩, rfl⟩ := hn
  exact ⟨c, Table.mem_select.mp hm⟩

/-- What a row holds after a revocation. -/
theorem getElem?_revoke {n m : Nat} {now : Millis} :
    (t.revoke n now).rows[m]? = t.rows[m]?.map fun c =>
      if n = m then { c with revokedAt := some now, notAfter := some now } else c := by
  simp only [Credentials.revoke, List.getElem?_modify]
  cases t.rows[m]? with
  | none => rfl
  | some c => by_cases h : n = m <;> simp [h]

/-- What a row holds after a rotation. -/
theorem getElem?_rotated {input : RotateCredentialInput} {found : Option Nat} {suffix : String}
    {t' : Credentials} (h : w.rotated input found suffix = some t') (m : Nat) :
    t'.rows[m]? = (w.credentials.rows ++ [w.newCredential input suffix])[m]?.map fun c =>
      if found = some m then { c with notAfter := some (w.now + input.grace) } else c := by
  obtain ⟨t₁, hins, rfl⟩ := Option.map_eq_some_iff.mp h
  have hrows := rows_insert hins
  cases found with
  | none =>
      rw [← hrows]
      simp
  | some n =>
      simp only [Credentials.retire, List.getElem?_modify, hrows]
      cases (w.credentials.rows ++ [w.newCredential input suffix])[m]? with
      | none => rfl
      | some c => by_cases h : n = m <;> simp [h]

/-- An old row after a rotation. -/
theorem getElem?_rotated_old {input : RotateCredentialInput} {found : Option Nat} {suffix : String}
    {t' : Credentials} (h : w.rotated input found suffix = some t') {m : Nat} {c : Credential}
    (hm : w.credentials.rows[m]? = some c) :
    t'.rows[m]? = some (if found = some m then
      { c with notAfter := some (w.now + input.grace) } else c) := by
  rw [getElem?_rotated h, Table.getElem?_concat_of_some hm]
  rfl

/-! ## What one step does -/

/-- A step that rotates nothing: at most it revokes a credential. -/
structure Lesser (w w' : World) : Prop where
  operators : w'.operators = w.operators
  credentials : w'.credentials = w.credentials ∨
    ∃ n, w'.credentials = w.credentials.revoke n w.now

theorem Lesser.refl (w : World) : Lesser w w := ⟨rfl, .inl rfl⟩

/-- What a call has come to: a rotation is about to be made, or is over; every other call rotates
nothing. -/
def Stage (t : Task World Choice Call) : Prop :=
  match t.call with
  | .rotate input => t.prog = rotateCredential input ∨ t.prog = .ret ()
  | _ => t.prog.Keeps Lesser

/-- Every call is at a stage. -/
def Staged (p : State) : Prop := ∀ t ∈ p.tasks, Stage t

/-- Building an adapter rotates nothing. -/
theorem buildAdapter_keeps (operatorId : OperatorId) : (buildAdapter operatorId).Keeps Lesser := by
  refine Prog.Keeps.bind (Prog.Keeps.query Lesser.refl _) fun operator => ?_
  cases operator with
  | none => trivial
  | some operator =>
      refine Prog.Keeps.lift fun i c w a w' h => ?_
      split at h
      · split at h <;> obtain rfl := congrArg Prod.snd (Option.some.inj h) <;> exact ⟨rfl, .inl rfl⟩
      · cases h

theorem sign_keeps (adapter : HttpWalletAdapter) : (sign adapter).Keeps Lesser :=
  Prog.Keeps.request fun _ _ => ⟨rfl, .inl rfl⟩

/-- Every call starts at a stage. -/
theorem stage_code (k : Call) : Stage ⟨k, k.code⟩ := by
  cases k with
  | rotate input => exact .inl rfl
  | revoke id =>
      refine Prog.Keeps.bind (Prog.Keeps.query Lesser.refl _) fun existing => ?_
      cases existing with
      | none => trivial
      | some existing =>
          dsimp only
          split
          · trivial
          · exact Prog.Keeps.modify fun w => ⟨rfl, .inr ⟨id, rfl⟩⟩
  | ensure operatorId =>
      exact Prog.Keeps.bind (buildAdapter_keeps operatorId) fun _ =>
        Prog.Keeps.request fun _ _ => ⟨rfl, .inl rfl⟩
  | walletCall n =>
      refine Prog.Keeps.bind (Prog.Keeps.request fun _ _ => ⟨rfl, .inl rfl⟩) fun adapter => ?_
      cases adapter with
      | none => trivial
      | some adapter => exact sign_keeps adapter
  | runJob operatorId =>
      refine Prog.Keeps.bind (buildAdapter_keeps operatorId) fun adapter => ?_
      cases adapter with
      | none => trivial
      | some adapter => exact sign_keeps adapter

/-- A call that is cut off is at a stage. -/
theorem Stage.cut {t : Task World Choice Call} : Stage t.cut := by
  obtain ⟨k, prog⟩ := t
  cases k with
  | rotate input => exact .inr rfl
  | _ => trivial

/-- A rotation in a step. -/
structure Rotation (p : State) (e : Happening) (w' : World) (i : Nat) (c : Choice)
    (input : RotateCredentialInput) (t' : Credentials) : Prop where
  event : e = .run i c
  about : rotation? p i = some input
  finds : p.world.credentials.finds (Credential.active input.operatorId input.type p.world.now)
    c.found = true
  rotated : p.world.rotated input c.found c.suffix = some t'
  world : w' = { p.world with credentials := t' }

/-- No rotation takes effect in a step. -/
def Quiet (p : State) (e : Happening) : Prop :=
  ∀ i c input, e = .run i c → rotation? p i = some input →
    p.world.rotated input c.found c.suffix = none

/-- **What one step does**: it makes a rotation, or it rotates nothing. -/
theorem step_cases {e : Happening} (h : Staged p) (hs : credentialServer.step p e = some q) :
    Staged q ∧ ((Lesser p.world q.world ∧ Quiet p e) ∨
      ∃ i c input t', Rotation p e q.world i c input t') := by
  cases e with
  | call k =>
      obtain rfl : (⟨p.world, p.tasks ++ [⟨k, k.code⟩]⟩ : State) = q := by
        simpa [System.step, credentialServer] using hs
      refine ⟨fun t ht => ?_, .inl ⟨.refl _, fun _ _ _ he => by cases he⟩⟩
      rcases List.mem_append.mp ht with ht | ht
      · exact h t ht
      · exact List.mem_singleton.mp ht ▸ stage_code k
  | kill i =>
      obtain rfl : (⟨p.world, p.tasks.modify i Task.cut⟩ : State) = q := by
        simpa [System.step] using hs
      refine ⟨fun t ht => ?_, .inl ⟨.refl _, fun _ _ _ he => by cases he⟩⟩
      rcases Table.mem_modify_cases ht with ht | ⟨t, -, rfl⟩
      · exact h t ht
      · exact Stage.cut
  | env x =>
      obtain rfl : _ = q := by simpa [System.step, credentialServer] using hs
      refine ⟨fun t ht => h t (by simpa using ht), .inl ⟨?_, fun _ _ _ he => by cases he⟩⟩
      cases x <;> exact ⟨rfl, .inl rfl⟩
  | run i c =>
      obtain ⟨k, β, run, next, b, w, hi, hrun, rfl⟩ := System.runTask_cases hs
      have hstage := h _ (List.mem_of_getElem? hi)
      have hothers : Stage ⟨k, next b⟩ → Staged ⟨w, p.tasks.set i ⟨k, next b⟩⟩ := by
        intro hst t ht
        rcases Table.mem_set_cases ht with rfl | ht
        · exact hst
        · exact h t ht
      have hkeeps : (Prog.act run next).Keeps Lesser → (∀ input, k ≠ .rotate input) →
          ((next b).Keeps Lesser → Stage ⟨k, next b⟩) →
          Staged ⟨w, p.tasks.set i ⟨k, next b⟩⟩ ∧ ((Lesser p.world w ∧ Quiet p (.run i c)) ∨
            ∃ i' c' input t', Rotation p (.run i c) w i' c' input t') := by
        intro hk hne hst
        refine ⟨hothers (hst (hk.2 b)), .inl ⟨hk.1 i c p.world b w hrun, ?_⟩⟩
        rintro i' c' input he hrot
        obtain ⟨rfl, rfl⟩ : i = i' ∧ c = c' := by simpa using he
        simp only [rotation?, hi] at hrot
        split at hrot
        · rename_i heq
          exact absurd (congrArg Task.call (Option.some.inj heq)) (hne _)
        · cases hrot
      cases k with
      | rotate input =>
          rcases hstage with hst | hst
          · have habout : rotation? p i = some input := by simp only [rotation?, hi]
            cases hst
            dsimp only at hrun
            split at hrun
            · rename_i hfinds
              split at hrun
              · rename_i t' hrot
                obtain ⟨rfl, rfl⟩ : b = () ∧ _ = w := by simpa using hrun
                exact ⟨hothers (.inr rfl), .inr ⟨i, c, input, t', rfl, habout, hfinds, hrot, rfl⟩⟩
              · rename_i hrot
                obtain ⟨rfl, rfl⟩ : b = () ∧ _ = w := by simpa using hrun
                refine ⟨hothers (.inr rfl), .inl ⟨.refl _, fun i' c' input' he hrot' => ?_⟩⟩
                obtain ⟨rfl, rfl⟩ : i = i' ∧ c = c' := by simpa using he
                rw [habout] at hrot'
                exact Option.some.inj hrot' ▸ hrot
            · cases hrun
          · cases hst
      | revoke id => exact hkeeps hstage (by simp) fun h => h
      | ensure operatorId => exact hkeeps hstage (by simp) fun h => h
      | walletCall n => exact hkeeps hstage (by simp) fun h => h
      | runJob operatorId => exact hkeeps hstage (by simp) fun h => h

/-! ## A step that rotates nothing -/

/-- A revocation makes no credential acceptable, and gives none an open end. -/
theorem Lesser.shrinks {e : Happening} (h : Lesser p.world q.world) (ho : OneOpenEnded p.world) :
    Shrinks p e q := by
  obtain ⟨hop, hc | ⟨n, hc⟩⟩ := h
  · have hauth : ∀ kid now, q.world.operatorAuth kid now = p.world.operatorAuth kid now := fun _ _ => by
      simp only [World.operatorAuth, hop, hc]
    have hopen : ∀ operatorId type, q.world.openEnded operatorId type =
        p.world.openEnded operatorId type := fun _ _ => by
      simp only [World.openEnded, hc]
    exact ⟨fun c _ now => by rw [hauth]; exact id, fun operatorId type => by
      rw [hopen]
      exact ho operatorId type⟩
  · have hrow : ∀ m : Nat, q.world.credentials.rows[m]? = p.world.credentials.rows[m]?.map fun c =>
        if n = m then { c with revokedAt := some p.world.now, notAfter := some p.world.now } else c :=
      fun m => hc ▸ getElem?_revoke
    refine ⟨fun c hc' now hok => ?_, fun operatorId type m hm m' hm' => ?_⟩
    · obtain ⟨m, hm⟩ := List.mem_iff_getElem?.mp hc'
      have hm' := hrow m
      rw [hm, Option.map_some] at hm'
      rw [operatorAuth_isOk hm]
      by_cases hnm : n = m
      · -- what was revoked is not acceptable
        rw [if_pos hnm] at hm'
        rw [show c.kid = ({ c with
          revokedAt := some p.world.now, notAfter := some p.world.now } : Credential).kid from rfl,
          operatorAuth_isOk hm', Option.isNone_iff_eq_none, refused_eq_none] at hok
        cases hok.2.1
      · rw [if_neg hnm] at hm'
        rw [operatorAuth_isOk hm', hop] at hok
        exact hok
    · have hold : ∀ m ∈ q.world.openEnded operatorId type, m ∈ p.world.openEnded operatorId type := by
        intro m hm
        obtain ⟨c', hm', hid, hty, hrev, hna⟩ := mem_openEnded.mp hm
        rw [hrow] at hm'
        obtain ⟨c, hm₀, rfl⟩ := Option.map_eq_some_iff.mp hm'
        by_cases hnm : n = m
        · rw [if_pos hnm] at hrev
          cases hrev
        · rw [if_neg hnm] at hid hty hrev hna
          exact mem_openEnded.mpr ⟨c, hm₀, hid, hty, hrev, hna⟩
      exact ho operatorId type m (hold m hm) m' (hold m' hm')

/-! ## A rotation -/

section Rotation

variable {e : Happening} {c : Choice} {input : RotateCredentialInput} {t' : Credentials}

/-- A rotation finds the credentials of its operator and its type. -/
theorem Rotation.found (h : Rotation p e w' i c input t') {n : Nat} (hn : c.found = some n) :
    ∃ x, p.world.credentials.rows[n]? = some x ∧ x.operatorId = input.operatorId ∧
      x.type = input.type ∧ x.revokedAt = none := by
  have hfinds := h.finds
  rw [hn] at hfinds
  obtain ⟨x, hx, hactive⟩ := finds_some hfinds
  simp only [Credential.active, decide_eq_true_eq] at hactive
  exact ⟨x, hx, hactive.1, hactive.2.1, hactive.2.2.1⟩

/-- An old row after the rotation. -/
theorem Rotation.row (h : Rotation p e w' i c input t') {m : Nat} {x : Credential}
    (hm : p.world.credentials.rows[m]? = some x) :
    w'.credentials.rows[m]? = some (if c.found = some m then
      { x with notAfter := some (p.world.now + input.grace) } else x) := by
  rw [h.world]
  exact getElem?_rotated_old h.rotated hm

/-- The new row has no end date. -/
theorem Rotation.new (h : Rotation p e w' i c input t') :
    p.world.credentials.rows.length ∈ w'.openEnded input.operatorId input.type := by
  have hne : c.found ≠ some p.world.credentials.rows.length := fun hf => by
    obtain ⟨x, hx, -⟩ := h.found hf
    simp at hx
  refine mem_openEnded.mpr ⟨p.world.newCredential input c.suffix, ?_, rfl, rfl, rfl, rfl⟩
  rw [h.world]
  show t'.rows[_]? = _
  rw [getElem?_rotated h.rotated, Table.getElem?_concat_length, Option.map_some, if_neg hne]

/-- What has no end date after the rotation: the new row, and the old ones that were not found. -/
theorem Rotation.mem_openEnded (h : Rotation p e w' i c input t') {operatorId : OperatorId}
    {type : CredentialType} {m : Nat} (hm : m ∈ w'.openEnded operatorId type) :
    (m ∈ p.world.openEnded operatorId type ∧ c.found ≠ some m) ∨
      (m = p.world.credentials.rows.length ∧ operatorId = input.operatorId ∧ type = input.type) := by
  obtain ⟨x', hx', hid, hty, hrev, hna⟩ := CredentialRotation.mem_openEnded.mp hm
  rw [h.world] at hx'
  have hx' : t'.rows[m]? = some x' := hx'
  rw [getElem?_rotated h.rotated] at hx'
  obtain ⟨x, hx, rfl⟩ := Option.map_eq_some_iff.mp hx'
  rcases Table.getElem?_concat_cases hx with hx | ⟨rfl, rfl⟩
  · refine .inl ⟨?_, fun hf => ?_⟩
    · by_cases hf : c.found = some m
      · rw [if_pos hf] at hna
        cases hna
      · rw [if_neg hf] at hid hty hrev hna
        exact CredentialRotation.mem_openEnded.mpr ⟨x, hx, hid, hty, hrev, hna⟩
    · rw [if_pos hf] at hna
      cases hna
  · refine .inr ⟨rfl, ?_, ?_⟩
    · split at hid <;> exact hid.symm
    · split at hty <;> exact hty.symm

/-- An old credential with no end date that was not found still has none. -/
theorem Rotation.openEnded_old (h : Rotation p e w' i c input t') {operatorId : OperatorId}
    {type : CredentialType} {m : Nat} (hm : m ∈ p.world.openEnded operatorId type)
    (hf : c.found ≠ some m) : m ∈ w'.openEnded operatorId type := by
  obtain ⟨x, hx, hrest⟩ := CredentialRotation.mem_openEnded.mp hm
  refine CredentialRotation.mem_openEnded.mpr ⟨x, ?_, hrest⟩
  rw [h.row hx, if_neg hf]

/-- **A rotation shrinks validity exactly when it meets the condition.** -/
theorem Rotation.shrinks_iff (h : Rotation p e q.world i c input t') (ho : OneOpenEnded p.world) :
    Shrinks p e q ↔ p.world.Retires input c.found := by
  have hop : q.world.operators = p.world.operators := by
    rw [h.world]
  constructor
  · refine fun hs => ⟨fun n hn => ?_, fun n hn x hx hin notAfter hna => ?_⟩
    · -- a credential that is not found would stay open-ended beside the new one
      by_contra hf
      have hlast := hs.one _ _ n (h.openEnded_old hn hf) _ h.new
      obtain ⟨x, hx, -⟩ := CredentialRotation.mem_openEnded.mp hn
      simp [hlast] at hx
    · -- the old credential is acceptable up to its new end date
      have hx : p.world.credentials.rows[n]? = some x := hx
      have hf : c.found = some n := hn
      obtain ⟨y, hy, -, -, hrev⟩ := h.found hf
      obtain rfl := Option.some.inj (hx.symm.trans hy)
      have hx' := h.row hx
      rw [if_pos hf] at hx'
      have hok := hs.accepted x (List.mem_of_getElem? hx) (p.world.now + input.grace) (by
        rw [show x.kid = ({ x with notAfter := some (p.world.now + input.grace) } : Credential).kid
          from rfl, operatorAuth_isOk hx', Option.isNone_iff_eq_none, refused_eq_none, hop]
        exact ⟨hin, hrev, fun _ hm => Option.mem_some.mp hm ▸ Nat.le_refl _⟩)
      rw [operatorAuth_isOk hx, Option.isNone_iff_eq_none, refused_eq_none] at hok
      exact hok.2.2 notAfter hna
  · refine fun ⟨hopen, hend⟩ => ⟨fun x hx now hok => ?_, fun operatorId type m hm n hn => ?_⟩
    · obtain ⟨m, hm⟩ := List.mem_iff_getElem?.mp hx
      have hm' := h.row hm
      rw [operatorAuth_isOk hm]
      by_cases hf : c.found = some m
      · rw [if_pos hf] at hm'
        rw [show x.kid = ({ x with notAfter := some (p.world.now + input.grace) } : Credential).kid
          from rfl, operatorAuth_isOk hm', Option.isNone_iff_eq_none, refused_eq_none, hop] at hok
        rw [Option.isNone_iff_eq_none, refused_eq_none]
        refine ⟨hok.1, hok.2.1, fun notAfter hna => ?_⟩
        have hnow : now ≤ p.world.now + input.grace := hok.2.2 _ rfl
        exact Nat.le_trans hnow (hend m hf x hm hok.1 notAfter hna)
      · rw [if_neg hf] at hm'
        rw [operatorAuth_isOk hm', hop] at hok
        exact hok
    · rcases h.mem_openEnded hm with ⟨hm, hfm⟩ | ⟨hnew, rfl, rfl⟩
      · rcases h.mem_openEnded hn with ⟨hn, -⟩ | ⟨-, rfl, rfl⟩
        · exact ho operatorId type m hm n hn
        · exact absurd (hopen m hm) hfm
      · rcases h.mem_openEnded hn with ⟨hn, hfn⟩ | ⟨hnew', -⟩
        · exact absurd (hopen n hn) hfn
        · exact hnew.trans hnew'.symm

end Rotation

/-! ## Runs -/

/-- One step shrinks validity exactly when its rotation meets the condition. -/
theorem step_shrinks_iff {e : Happening} (h : Staged p) (ho : OneOpenEnded p.world)
    (hs : credentialServer.step p e = some q) : Shrinks p e q ↔ Retires p e q := by
  obtain ⟨-, ⟨hless, hquiet⟩ | ⟨i, c, input, t', hrot⟩⟩ := step_cases h hs
  · refine iff_of_true (hless.shrinks ho) ?_
    cases e with
    | run i c =>
        intro input hin hsome
        rw [hquiet i c input rfl hin] at hsome
        cases hsome
    | _ => trivial
  · rw [hrot.shrinks_iff ho]
    obtain rfl := hrot.event
    constructor
    · intro hret input' hin _
      obtain rfl : input = input' := Option.some.inj (hrot.about.symm.trans hin)
      exact hret
    · exact fun hret => hret input hrot.about (by rw [hrot.rotated]; rfl)

namespace Sample

/-- The only operator. -/
def operators : List Operator := [⟨"op", .active, none⟩]

/-- Its only credential. -/
def credentials : Credentials := ⟨[⟨0, .apiKeyInbound, "kid", none, none, 0, ""⟩], by decide⟩

/-- A rotation with a grace window of 100 ms. -/
def input : RotateCredentialInput := ⟨0, .apiKeyInbound, "", none, some 100, none⟩

/-- A rotation at 10 ms; the new credential is revoked at 20 ms. -/
def revoked : List Happening :=
  [.env (.elapse 10), .call (.rotate input), .run 0 ⟨some 0, "b"⟩, .env (.elapse 10),
    .call (.revoke 1), .run 1 ⟨none, ""⟩, .run 1 ⟨none, ""⟩]

/-- The next rotation, at 50 ms. -/
def again : List Happening := [.env (.elapse 30), .call (.rotate input)]

/-- The only credential is the only one without an end date. -/
theorem oneOpenEnded : OneOpenEnded (initial 0 operators credentials).world := by
  intro operatorId type m hm n hn
  obtain ⟨c, hc, -⟩ := mem_openEnded.mp hm
  obtain ⟨d, hd, -⟩ := mem_openEnded.mp hn
  have hm := (List.getElem?_eq_some_iff.mp hc).1
  have hn := (List.getElem?_eq_some_iff.mp hd).1
  simp only [initial, credentials, List.length_singleton] at hm hn
  omega

end Sample

end YantraRgs.CredentialRotation
