import YantraRgs.Services.AdminAuditLog

/-! # The audit trail keeps no secrets

What stands in a body below a secret's name makes no difference to the row that the request leaves, and
everything else of the body stands in the row where it stood in the body.

* **`Step.open`**, **`isOpen`** — the paths that meet no name of a secret.
* **`getAt_scrub`** — what is shown; **`scrub_putAt`** — what makes no difference.
* **`audit_conceals`** — both, for the rows. -/

namespace YantraRgs.AdminAuditLog

open JsonPaths

/-- Whether a step leads to what is shown. -/
def shown : Step → Bool
  | .index _ => true
  | .key name => name ∉ "__proto__" :: SENSITIVE_FIELDS

/-- **Whether a path meets no name of a secret.** -/
def isOpen (p : List Step) : Bool := p.all shown

/-! ## One step -/

theorem scrubElements_eq (vs : List Value) : scrubElements vs = vs.map scrub := by
  induction vs with
  | nil => rfl
  | cons v vs ih => rw [scrubElements, ih, List.map_cons]

theorem ne_proto_of_shown {name : String} (h : shown (.key name) = true) :
    name ≠ "__proto__" ∧ name ∉ SENSITIVE_FIELDS := by
  have hmem : name ∉ "__proto__" :: SENSITIVE_FIELDS := of_decide_eq_true h
  rw [List.mem_cons, not_or] at hmem
  exact hmem

/-- **A field whose name is no secret's** is there, without the secrets in it. -/
theorem lookup_scrubEntries {name : String} (h : shown (.key name) = true) (es : List (String × Value)) :
    (scrubEntries es).lookup name = (es.lookup name).map scrub := by
  obtain ⟨hproto, hsecret⟩ := ne_proto_of_shown h
  induction es with
  | nil => rfl
  | cons e es ih =>
      obtain ⟨k, v⟩ := e
      by_cases hk : k = name
      · subst hk
        rw [scrubEntries, if_neg hproto, if_neg hsecret, List.lookup_cons_self, List.lookup_cons_self]
        rfl
      · have hskip : ∀ (x : Value) (fs : List (String × Value)),
            ((k, x) :: fs).lookup name = fs.lookup name := by
          intro x fs
          have hne : (name == k) = false := by simpa using Ne.symm hk
          rw [List.lookup_cons, hne]
        rw [hskip, ← ih, scrubEntries]
        split
        · rfl
        split
        · exact hskip _ _
        · exact hskip _ _

/-- **A change below a secret's name** makes no difference. -/
theorem scrubEntries_map {name : String} (h : shown (.key name) = false) (f : Value → Value)
    (es : List (String × Value)) :
    scrubEntries (es.map fun e => if e.1 = name then (e.1, f e.2) else e) = scrubEntries es := by
  have hmem : name = "__proto__" ∨ name ∈ SENSITIVE_FIELDS :=
    List.mem_cons.mp (not_not.mp (of_decide_eq_false h))
  induction es with
  | nil => rfl
  | cons e es ih =>
      obtain ⟨k, v⟩ := e
      rw [List.map_cons]
      by_cases hk : k = name
      · subst hk
        rw [if_pos rfl, scrubEntries, scrubEntries, ih]
        split
        · rfl
        · rename_i hproto
          rw [if_pos (hmem.resolve_left hproto), if_pos (hmem.resolve_left hproto)]
      · rw [if_neg hk, scrubEntries, scrubEntries, ih]

/-- **A field with a secret's name** has the mark of the secret. -/
theorem redacted_of_lookup {name : String} (h : shown (.key name) = false) (es : List (String × Value)) :
    ∀ v ∈ (scrubEntries es).lookup name, v = redacted := by
  have hmem : name = "__proto__" ∨ name ∈ SENSITIVE_FIELDS :=
    List.mem_cons.mp (not_not.mp (of_decide_eq_false h))
  induction es with
  | nil => exact fun v hv => nomatch hv
  | cons e es ih =>
      obtain ⟨k, u⟩ := e
      intro v hv
      rw [scrubEntries] at hv
      split at hv
      · exact ih v hv
      rename_i hproto
      split at hv
      · rw [List.lookup_cons] at hv
        split at hv
        · exact (Option.some.inj hv).symm
        · exact ih v hv
      · rename_i hsecret
        have hne : (name == k) = false := by
          rw [beq_eq_false_iff_ne]
          rintro rfl
          exact hmem.elim hproto hsecret
        rw [List.lookup_cons, hne] at hv
        exact ih v hv

/-- A change that makes no difference makes none below a name. -/
theorem scrubEntries_congr {name : String} {f : Value → Value} (h : ∀ v, scrub (f v) = scrub v)
    (es : List (String × Value)) :
    scrubEntries (es.map fun e => if e.1 = name then (e.1, f e.2) else e) = scrubEntries es := by
  induction es with
  | nil => rfl
  | cons e es ih =>
      obtain ⟨k, v⟩ := e
      rw [List.map_cons]
      split
      · rw [scrubEntries, scrubEntries, ih, h]
      · rw [scrubEntries, scrubEntries, ih]

/-! ## Paths -/

/-- **Where no secret's name is met**, the body is shown as it is, without the secrets in it. -/
theorem getAt_scrub : ∀ (p : List Step) (v : Value), isOpen p = true →
    getAt p (scrub v) = (getAt p v).map scrub
  | [], v, _ => rfl
  | .index n :: p, v, h => by
      have ih := fun u => getAt_scrub p u (List.all_eq_true.mpr fun s hs =>
        List.all_eq_true.mp h s (List.mem_cons_of_mem _ hs))
      cases v with
      | array vs =>
          rw [scrub, getAt, getAt, scrubElements_eq, List.getElem?_map, Option.bind_map, Option.map_bind]
          exact congrArg _ (funext ih)
      | null | bool | number | string | bigint | date | object => rfl
  | .key name :: p, v, h => by
      have hall := List.all_eq_true.mp h
      have ih := fun u => getAt_scrub p u (List.all_eq_true.mpr fun s hs =>
        hall s (List.mem_cons_of_mem _ hs))
      cases v with
      | object es =>
          rw [scrub, getAt, getAt, lookup_scrubEntries (hall _ List.mem_cons_self), Option.bind_map,
            Option.map_bind]
          exact congrArg _ (funext ih)
      | null | bool | number | string | bigint | date | array => rfl

/-- **Below a secret's name** nothing makes a difference. -/
theorem scrub_putAt (x : Value) : ∀ (p : List Step) (v : Value), isOpen p = false →
    scrub (putAt x p v) = scrub v
  | [], _, h => nomatch h
  | .index n :: p, v, h => by
      have hrest : isOpen p = false := h
      cases v with
      | array vs =>
          rw [putAt, scrub, scrub, scrubElements_eq, scrubElements_eq]
          congr 1
          refine List.ext_getElem? fun k => ?_
          rw [List.getElem?_map, List.getElem?_map, List.getElem?_modify]
          cases vs[k]? with
          | none => rfl
          | some u =>
              show some (scrub (if n = k then putAt x p u else u)) = some (scrub u)
              split
              · rw [scrub_putAt x p u hrest]
              · rfl
      | null | bool | number | string | bigint | date | object => rfl
  | .key name :: p, v, h => by
      cases v with
      | object es =>
          rw [putAt, scrub, scrub]
          cases hname : shown (.key name) with
          | false => rw [scrubEntries_map hname]
          | true =>
              have hrest : isOpen p = false := by
                rw [isOpen, List.all_cons, hname, Bool.true_and] at h
                exact h
              rw [scrubEntries_congr fun u => scrub_putAt x p u hrest]
      | null | bool | number | string | bigint | date | array => rfl

/-- **What a scrubbed body has below a secret's name** is the mark of the secret, if anything. -/
theorem redacted_of_getAt : ∀ (p : List Step) (v : Value), isOpen p = false →
    ∀ u ∈ getAt p (scrub v), u = redacted
  | [], _, h => nomatch h
  | .index n :: p, v, h => by
      have ih := fun u => redacted_of_getAt p u h
      cases v with
      | array vs =>
          intro u hu
          rw [scrub, getAt, scrubElements_eq, List.getElem?_map, Option.bind_map] at hu
          obtain ⟨w, -, hw⟩ := Option.bind_eq_some_iff.mp hu
          exact ih w u hw
      | null | bool | number | string | bigint | date | object => exact fun u hu => nomatch hu
  | .key name :: p, v, h => by
      cases v with
      | object es =>
          intro u hu
          rw [scrub, getAt] at hu
          obtain ⟨w, hw, hget⟩ := Option.bind_eq_some_iff.mp hu
          cases hname : shown (.key name) with
          | true =>
              have hrest : isOpen p = false := by
                rw [isOpen, List.all_cons, hname, Bool.true_and] at h
                exact h
              rw [lookup_scrubEntries hname] at hw
              obtain ⟨w', -, rfl⟩ := Option.map_eq_some_iff.mp hw
              exact redacted_of_getAt p w' hrest u hget
          | false =>
              obtain rfl := redacted_of_lookup hname es w hw
              cases p with
              | nil => exact (Option.some.inj hget).symm
              | cons step p => cases step <;> exact nomatch hget
      | null | bool | number | string | bigint | date | array => exact fun u hu => nomatch hu

/-! ## Rows -/

/-- A change inside a body leaves it given. -/
theorem truthy_putAt (x : Value) {p : List Step} (h : p ≠ []) (v : Value) :
    truthy (putAt x p v) = truthy v := by
  cases p with
  | nil => exact absurd rfl h
  | cons step p => cases step <;> cases v <;> rfl

/-- **The audit trail conceals secrets.** Whatever stands in a body below the name of a secret, at any
depth, makes no difference to the row of the request; the row has no more than the mark of a secret
there; and everywhere else it has what the body has. -/
theorem audit_conceals (req : AdminRequest) (body : Value) :
    (∀ p x, isOpen p = false →
      adminAudit { req with body := some (putAt x p body) } = adminAudit { req with body := some body }) ∧
    ∀ row ∈ adminAudit { req with body := some body }, ∀ summary ∈ row.bodySummary, ∀ p,
      if isOpen p then getAt p summary = (getAt p body).map scrub
      else ∀ v ∈ getAt p summary, v = redacted := by
  constructor
  · intro p x hclosed
    have hne : p ≠ [] := by
      rintro rfl
      cases hclosed
    have hbody : ((some (putAt x p body)).filter truthy).map scrub = ((some body).filter truthy).map scrub := by
      rw [Option.filter_some, Option.filter_some, truthy_putAt x hne]
      split
      · rw [Option.map_some, Option.map_some, scrub_putAt x p body hclosed]
      · rfl
    unfold adminAudit
    rw [hbody]
  · intro row hrow summary hsummary p
    unfold adminAudit at hrow
    split at hrow
    · cases hrow
    obtain rfl := Option.some.inj hrow
    obtain ⟨v, hv, rfl⟩ := Option.map_eq_some_iff.mp hsummary
    obtain rfl := Option.some.inj (Option.filter_eq_some_iff.mp hv).1
    split
    · exact getAt_scrub p body ‹_›
    · rename_i hclosed
      exact redacted_of_getAt p body (Bool.eq_false_iff.mpr hclosed)

end YantraRgs.AdminAuditLog
