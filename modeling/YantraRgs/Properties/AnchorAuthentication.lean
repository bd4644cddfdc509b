import YantraRgs.Properties.AnchorStability

/-! # Rewritten anchors

An anchor is signed when it is written. Verification compares the tip of the day with the anchor's
tip column alone: neither the signature nor the signed manifest is looked at.

* **`Tampered`** — tables whose ledger and anchors were rewritten without the secret.
* **`Authentic`** — an anchor whose signature is that of a manifest of the rows compared.
* **`rewritten_verified`** — every rewritten day is verified against a rewritten anchor.
* **`authenticated_iff`** — so the verdict speaks for an anchor's signature only where there is no
  anchor to verify. -/

namespace YantraRgs.AuditChain

/-! ## Authentic anchors -/

/-- A signature is that of a manifest. -/
def Signed (env : Env) (manifest : AnchorSummary) (signature : Text) : Prop :=
  signManifest env (canonicalJson (.object manifest.entries)) = .ok signature

/-- What a verification of an anchor compares, as a manifest. -/
def comparedRows {R : Type} (env : Env) (S : Stream R) (rows : List R) (op : String)
    (a : AuditAnchor) : AnchorSummary :=
  let day := S.found rows (S.within op a.periodDate (a.periodDate + dayMs))
  { stream := a.streamName
    operatorId := op
    periodDate := dateText a.periodDate
    firstRowId := day.head?.map S.id
    lastRowId := day.getLast?.map S.id
    rowCount := day.length
    tipHash := seenTip env S rows op a.periodDate }

/-- The rows of the stream of an anchor, as a manifest. -/
def compared (env : Env) (db : Db) (op : String) (a : AuditAnchor) : AnchorSummary :=
  if a.streamName = "wallet_call" then comparedRows env walletCalls db.walletCalls op a
  else comparedRows env rounds db.rounds op a

/-- **An authentic anchor**: its signature is valid for its manifest, and the manifest is the one of
the rows that are compared. -/
def AuditAnchor.Authentic (env : Env) (db : Db) (a : AuditAnchor) : Prop :=
  Signed env a.manifest a.signature ∧ ∃ op, a.operatorId = some op ∧ a.manifest = compared env db op a

/-! ## Adversaries -/

/-- What the schema keeps anchors apart by. -/
def AuditAnchor.key (a : AuditAnchor) : Millis × String × Option String :=
  (a.periodDate, a.streamName, a.operatorId)

/-- **Tables that were rewritten without the secret**: ledger rows are any rows, the anchors are those of
the same days, streams and operators, and every valid signature is one that was there. -/
structure Tampered (env : Env) (db db' : Db) : Prop where
  keys : db'.auditAnchors.map AuditAnchor.key = db.auditAnchors.map AuditAnchor.key
  unforged : ∀ b ∈ db'.auditAnchors, Signed env b.manifest b.signature →
    ∃ a ∈ db.auditAnchors, a.manifest = b.manifest ∧ a.signature = b.signature

/-- An anchor with another tip in its column, and with a signature that is not its own. -/
def AuditAnchor.rewrite (a : AuditAnchor) (tip signature : Text) : AuditAnchor :=
  { a with tipHash := tip, signature := signature }

variable {env : Env} {db db' : Db} {id : Nat} {op : String} {a : AuditAnchor}
variable {tip signature : Text}

/-- There is a signature that is not valid. -/
theorem exists_not_signed (env : Env) (manifest : AnchorSummary) :
    ∃ signature, ¬ Signed env manifest signature := by
  cases hsign : signManifest env (canonicalJson (.object manifest.entries)) with
  | error e =>
      refine ⟨[], ?_⟩
      rw [Signed, hsign]
      intro h
      cases h
  | ok signature =>
      refine ⟨'x' :: signature, ?_⟩
      rw [Signed, hsign]
      intro h
      exact List.cons_ne_self 'x' signature (Except.ok.inj h).symm

/-- An anchor that is rewritten in its place is no forgery when its signature is not valid. -/
theorem Tampered.rewrite (ha : db.auditAnchors[id]? = some a)
    (hrest : db'.auditAnchors = db.auditAnchors.set id (a.rewrite tip signature))
    (hsigned : ¬ Signed env a.manifest signature) : Tampered env db db' where
  keys := by
    rw [hrest, List.map_set]
    obtain ⟨hid, hget⟩ := List.getElem?_eq_some_iff.mp ha
    have hid' : id < (db.auditAnchors.map AuditAnchor.key).length := by
      rw [List.length_map]
      exact hid
    have hkey : (db.auditAnchors.map AuditAnchor.key)[id] = (a.rewrite tip signature).key := by
      rw [List.getElem_map, hget]
      rfl
    rw [← hkey, List.set_getElem_self]
  unforged := by
    intro b hb hvalid
    rw [hrest] at hb
    rcases List.mem_or_eq_of_mem_set hb with hb | rfl
    · exact ⟨b, hb, rfl, rfl⟩
    · exact absurd hvalid hsigned

/-- **Every rewritten day is verified against a rewritten anchor.** -/
theorem rewritten_verified (ha : db.auditAnchors[id]? = some a) (hop : a.operatorId = some op)
    (signature : Text) (hrest : db'.auditAnchors = db.auditAnchors.set id
      (a.rewrite (shownTip env a.streamName op a.periodDate db') signature)) :
    (verifyAnchor env db' id).any (·.verified) = true := by
  obtain ⟨hid, -⟩ := List.getElem?_eq_some_iff.mp ha
  have hget : db'.auditAnchors[id]? =
      some (a.rewrite (shownTip env a.streamName op a.periodDate db') signature) := by
    rw [hrest, List.getElem?_set_self hid]
  exact (verifyAnchor_iff hget ⟨rfl, hop, rfl⟩).mpr rfl

/-- **Every ledger can be put under an anchor with its verdict**, and without the anchor's signature. -/
theorem exists_forged (env : Env) (ha : db.auditAnchors[id]? = some a) (hop : a.operatorId = some op)
    (calls : List WalletCallRow) (roundRows : List RoundRow) :
    ∃ db', Tampered env db db' ∧ db'.walletCalls = calls ∧ db'.rounds = roundRows ∧
      (verifyAnchor env db' id).any (·.verified) = true ∧
        ∃ b, db'.auditAnchors[id]? = some b ∧ ¬ b.Authentic env db' := by
  obtain ⟨signature, hsigned⟩ := exists_not_signed env a.manifest
  obtain ⟨hid, -⟩ := List.getElem?_eq_some_iff.mp ha
  let ledger : Db := ⟨db.operators, calls, roundRows, db.auditAnchors⟩
  let b := a.rewrite (shownTip env a.streamName op a.periodDate ledger) signature
  refine ⟨⟨db.operators, calls, roundRows, db.auditAnchors.set id b⟩, .rewrite ha rfl hsigned, rfl,
    rfl, rewritten_verified ha hop signature rfl, b, List.getElem?_set_self hid, ?_⟩
  intro hauthentic
  exact hsigned hauthentic.1

/-- **A verdict speaks for the signature of an anchor exactly where there is no anchor**: in every other
database an adversary without the secret can have a day and its anchor rewritten and verified. -/
theorem authenticated_iff (env : Env) (db : Db) :
    (∀ db', Tampered env db db' → ∀ id b, db'.auditAnchors[id]? = some b →
        (verifyAnchor env db' id).any (·.verified) = true → b.Authentic env db') ↔
      ∀ a ∈ db.auditAnchors, a.operatorId = none := by
  constructor
  · intro h a ha
    by_contra hoperator
    obtain ⟨op, hop⟩ := Option.ne_none_iff_exists'.mp hoperator
    obtain ⟨id, hat⟩ := List.getElem?_of_mem ha
    obtain ⟨db', htampered, -, -, hverified, b, hb, hforged⟩ :=
      exists_forged env hat hop db.walletCalls db.rounds
    exact hforged (h db' htampered id b hb hverified)
  · intro h db' htampered id b hb hverified
    -- the anchor has the key of one without an operator
    have hkey : b.key ∈ db.auditAnchors.map AuditAnchor.key := by
      rw [← htampered.keys]
      exact List.mem_map_of_mem (List.mem_of_getElem? hb)
    obtain ⟨a, ha, hsame⟩ := List.mem_map.mp hkey
    have hoperator : b.operatorId = none := by
      rw [← h a ha]
      exact (congrArg (fun key => key.2.2) hsame).symm
    rw [verifyAnchor, hb] at hverified
    simp only [hoperator, Option.any_none, Bool.false_eq_true] at hverified

/-- **A day rewritten together with its anchor is verified**: the only wallet call of an anchored day is
deleted. -/
theorem rewritten_day : ¬ ∀ (env : Env) (db db' : Db), Tampered env db db' →
    ∀ (id : Nat) (b : AuditAnchor), db'.auditAnchors[id]? = some b →
      (verifyAnchor env db' id).any (·.verified) = true → b.Authentic env db' := by
  intro h
  have hany : Sample.oneDay.auditAnchors[0]?.any (·.operatorId = some "operator") = true := by
    decide +kernel
  obtain ⟨a, ha, hop⟩ := (Option.any_eq_true _ _).mp hany
  obtain ⟨db', htampered, -, -, hverified, b, hb, hforged⟩ :=
    exists_forged Sample.env ha (of_decide_eq_true hop) [] []
  exact hforged (h Sample.env Sample.oneDay db' htampered 0 b hb hverified)

end YantraRgs.AuditChain
