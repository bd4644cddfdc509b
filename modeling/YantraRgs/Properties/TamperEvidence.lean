import YantraRgs.Audit.Anchors

/-! # Tampering with an anchored ledger

An anchor keeps the tip of its day's chain and the number of its rows; verification compares the tip
alone, and starts the chain from the hash stored in the last row before the day.

* **`WrittenFrom`** — an anchor that anchoring a day wrote, and the rows that were present then.
* **`anchored_iff`** — when every anchor is verified, the rows of every anchored day are the ones
  that were present exactly when their number is the one in the anchor.
* **`anchored_deletion`** — a verified ledger that lost a row of an anchored day. -/

namespace YantraRgs.AuditChain

/-! ## What an anchor says -/

/-- The wallet calls of an anchor's day. -/
def dayOf (db : Db) (a : AuditAnchor) : List WalletCallRow :=
  walletCalls.found db.walletCalls
    (walletCalls.within (a.operatorId.getD "") a.periodDate (a.periodDate + dayMs))

/-- **An anchor that anchoring a day wrote** for an operator's wallet calls, and the rows of that day
that were present. A day without rows gets no anchor. -/
def WrittenFrom (env : Env) (a : AuditAnchor) (present : List WalletCallRow) : Prop :=
  ∃ (db : Db) (date : Millis) (op : String) (tally : Tally),
    UniqueAnchors db.auditAnchors ∧ op ∈ db.operators ∧ (anchorDay env db date).2 = .ok tally ∧
    a ∈ (anchorDay env db date).1.auditAnchors ∧ a.periodDate = startOfDay date ∧
    a.streamName = "wallet_call" ∧ a.operatorId = some op ∧ present = dayOf db a ∧ present ≠ []

/-- An anchor keeps the length and the tip of a chain over rows of this content. -/
def AuditAnchor.Keeps (env : Env) (a : AuditAnchor) (content : List Tree) : Prop :=
  a.rowCount = content.length ∧ ∃ start, a.tipHash = content.foldl (chainLink env) start

section Written

variable {env : Env} {t : Millis} {op : String} {content : List Tree}

/-- The state of the loop: one anchor for each key, and the day has the content it had. -/
def Anchoring (op : String) (t : Millis) (content : List Tree) (db : Db) : Prop :=
  UniqueAnchors db.auditAnchors ∧
    (walletCalls.found db.walletCalls (walletCalls.within op t (t + dayMs))).map
      walletCalls.content = content

/-- The anchor of the day, if there is one, keeps the content of the day. -/
def Kept (env : Env) (op : String) (t : Millis) (content : List Tree) (db : Db) : Prop :=
  ∀ a ∈ db.auditAnchors, a.periodDate = t → a.streamName = "wallet_call" →
    a.operatorId = some op → a.Keeps env content

theorem Anchoring.calls {db : Db} (h : Anchoring op t content db) (tally : Tally) (o : String) :
    Anchoring op t content (anchorWalletCalls env db t tally o).1 := by
  have hcontent := (summariseDay_relinked env walletCalls db.walletCalls o t (t + dayMs)).map_content
    op t (t + dayMs)
  rcases record_cases env { db with
    walletCalls := (summariseWalletCallDay env db.walletCalls o t (t + dayMs)).1 } t tally
    (summariseWalletCallDay env db.walletCalls o t (t + dayMs)).2 with
    ⟨heq, -⟩ | ⟨s, signature, -, heq⟩
  · rw [anchorWalletCalls, heq]
    exact ⟨h.1, hcontent.trans h.2⟩
  · rw [anchorWalletCalls, heq]
    exact ⟨h.1.upsert _, hcontent.trans h.2⟩

theorem Anchoring.rounds {db : Db} (h : Anchoring op t content db) (tally : Tally) (o : String) :
    Anchoring op t content (anchorRounds env db t tally o).1 := by
  rcases record_cases env { db with
    rounds := (summariseRoundDay env db.rounds o t (t + dayMs)).1 } t tally
    (summariseRoundDay env db.rounds o t (t + dayMs)).2 with ⟨heq, -⟩ | ⟨s, signature, -, heq⟩
  · rw [anchorRounds, heq]
    exact h
  · rw [anchorRounds, heq]
    exact ⟨h.1.upsert _, h.2⟩

/-- The summary of the day keeps its content. -/
theorem Anchoring.summary_keeps {db : Db} (h : Anchoring op t content db) {s : AnchorSummary}
    (hs : (summariseWalletCallDay env db.walletCalls op t (t + dayMs)).2 = some s)
    (signature : Text) : (s.anchor t signature).Keeps env content := by
  obtain ⟨-, -, -, hcount, htip⟩ := summariseDay_some hs
  refine ⟨?_, (beforeTip walletCalls db.walletCalls op t).getD [], ?_⟩
  · rw [← h.2, List.length_map]
    exact hcount
  · rw [← h.2]
    exact htip

/-- The turn of an operator writes the anchor of its day. -/
theorem Kept.brought {db : Db} {tally tally' : Tally} (h : Anchoring op t content db)
    (hne : content ≠ []) (hok : (anchorWalletCalls env db t tally op).2 = .ok tally') :
    Kept env op t content (anchorWalletCalls env db t tally op).1 := by
  rcases record_cases env { db with
    walletCalls := (summariseWalletCallDay env db.walletCalls op t (t + dayMs)).1 } t tally
    (summariseWalletCallDay env db.walletCalls op t (t + dayMs)).2 with
    ⟨heq, hnone | ⟨e, herror⟩⟩ | ⟨s, signature, hs, heq⟩
  · refine absurd ?_ hne
    rw [← h.2]
    have hday : walletCalls.found db.walletCalls (walletCalls.within op t (t + dayMs)) = [] := by
      by_contra hday
      obtain ⟨s, hs, -⟩ := summariseDay_of_ne_nil env hday
      rw [summariseWalletCallDay, hs] at hnone
      cases hnone
    rw [hday, List.map_nil]
  · rw [anchorWalletCalls, herror] at hok
    cases hok
  · intro a ha hperiod hstream hop
    rw [anchorWalletCalls, heq] at ha
    rcases mem_upsert h.1 ha with rfl | ⟨-, hkey⟩
    · exact h.summary_keeps hs signature
    · obtain ⟨-, hname, hoperator, -⟩ := summariseDay_some hs
      simp only [AuditAnchor.sameKey, AnchorSummary.anchor, hname, hoperator, hperiod, hstream,
        hop] at hkey
      exact absurd hkey (by decide)

/-- Every turn keeps the anchor of the day. -/
theorem Kept.calls {db : Db} (h : Anchoring op t content db) (hkept : Kept env op t content db)
    (tally : Tally) (o : String) : Kept env op t content (anchorWalletCalls env db t tally o).1 := by
  rcases record_cases env { db with
    walletCalls := (summariseWalletCallDay env db.walletCalls o t (t + dayMs)).1 } t tally
    (summariseWalletCallDay env db.walletCalls o t (t + dayMs)).2 with
    ⟨heq, -⟩ | ⟨s, signature, hs, heq⟩
  · rw [anchorWalletCalls, heq]
    exact hkept
  · intro a ha hperiod hstream hop
    rw [anchorWalletCalls, heq] at ha
    rcases mem_upsert h.1 ha with rfl | ⟨ha, -⟩
    · obtain ⟨-, -, hoperator, -⟩ := summariseDay_some hs
      obtain rfl : o = op := hoperator.symm.trans (Option.some.inj hop)
      exact h.summary_keeps hs signature
    · exact hkept a ha hperiod hstream hop

theorem Kept.rounds {db : Db} (h : Anchoring op t content db) (hkept : Kept env op t content db)
    (tally : Tally) (o : String) : Kept env op t content (anchorRounds env db t tally o).1 := by
  rcases record_cases env { db with
    rounds := (summariseRoundDay env db.rounds o t (t + dayMs)).1 } t tally
    (summariseRoundDay env db.rounds o t (t + dayMs)).2 with ⟨heq, -⟩ | ⟨s, signature, hs, heq⟩
  · rw [anchorRounds, heq]
    exact hkept
  · intro a ha hperiod hstream hop
    rw [anchorRounds, heq] at ha
    rcases mem_upsert h.1 ha with rfl | ⟨ha, -⟩
    · -- the anchors of the rounds bear another name
      obtain ⟨-, hname, -⟩ := summariseDay_some hs
      have hrounds : "round" = "wallet_call" := hname.symm.trans hstream
      exact absurd hrounds (by decide)
    · exact hkept a ha hperiod hstream hop

end Written

/-- **An anchor keeps the length and the tip of the chain of the rows it was written from.** -/
theorem WrittenFrom.keeps {env : Env} {a : AuditAnchor} {present : List WalletCallRow}
    (h : WrittenFrom env a present) : a.Keeps env (present.map walletCalls.content) := by
  obtain ⟨db, date, op, tally, hunique, hop, hok, ha, hperiod, hstream, hoperator, rfl, hne⟩ := h
  have hday : dayOf db a = walletCalls.found db.walletCalls
      (walletCalls.within op (startOfDay date) (startOfDay date + dayMs)) := by
    rw [dayOf, hperiod, hoperator]
    rfl
  rw [hday] at hne ⊢
  refine anchorOperators_brings (I := Anchoring op (startOfDay date) _)
    (J := Kept env op (startOfDay date) _) (fun _ tally o h => h.calls tally o)
    (fun _ tally o h => h.rounds tally o) ?_
    (fun _ tally o h hkept => hkept.calls h tally o)
    (fun _ tally o h hkept => hkept.rounds h tally o) db.operators db ⟨0, 0⟩ tally
    ⟨hunique, rfl⟩ hop hok a ha hperiod hstream hoperator
  intro db₁ tally₁ db₂ tally₂ _ hstate hcalls _
  have hcontent : (walletCalls.found db.walletCalls (walletCalls.within op (startOfDay date)
      (startOfDay date + dayMs))).map walletCalls.content ≠ [] :=
    fun hnil => hne (List.map_eq_nil_iff.mp hnil)
  have hstate₂ : Anchoring op (startOfDay date) _ (anchorWalletCalls env _ _ tally₁ op).1 :=
    hstate.calls tally₁ op
  have hkept := Kept.brought hstate hcontent (congrArg Prod.snd hcalls)
  rw [hcalls] at hstate₂ hkept
  exact hkept.rounds hstate₂ tally₂ op

/-! ## Verified ledgers -/

/-- Something holds of every anchor of wallet calls. -/
def Anchored (db : Db) (Q : Nat → AuditAnchor → Prop) : Prop :=
  ∀ id a, db.auditAnchors[id]? = some a → a.streamName = "wallet_call" → Q id a

/-- **A verified ledger has the rows that were anchored exactly when it has as many.** -/
theorem anchored_iff {env : Env} (hsha : Function.Injective env.sha256) {db : Db}
    {present : Nat → List WalletCallRow}
    (hwritten : Anchored db fun id a => WrittenFrom env a (present id))
    (hmatch : Anchored db fun id _ => (verifyAnchor env db id).any (·.verified) = true) :
    (Anchored db fun id a =>
        (dayOf db a).map walletCalls.fields = (present id).map walletCalls.fields) ↔
      Anchored db fun _ a => (dayOf db a).length = a.rowCount := by
  constructor
  · intro h id a hid hstream
    have hcount := (hwritten id a hid hstream).keeps.1
    have hlength := congrArg List.length (h id a hid hstream)
    rw [List.length_map, List.length_map] at hlength
    rw [hcount, hlength, List.length_map]
  · intro h id a hid hstream
    obtain ⟨hcount, start, htip⟩ := (hwritten id a hid hstream).keeps
    obtain ⟨-, -, op, -, -, -, -, -, -, -, hop, -⟩ := hwritten id a hid hstream
    have hverified := hmatch id a hid hstream
    have hlength := h id a hid hstream
    -- both chains have the length and the tip that the anchor keeps
    simp only [verifyAnchor, hid, hop, hstream, if_true, Option.any_some] at hverified
    rw [verifyStream_verified, Stream.tip, htip] at hverified
    have hday : walletCalls.found db.walletCalls
        (walletCalls.within op a.periodDate (a.periodDate + dayMs)) = dayOf db a := by
      rw [dayOf, hop]
      rfl
    rw [hday] at hverified
    have hchain := HashChain.foldl_inj (binding hsha) (by rw [List.length_map, hlength, hcount])
      hverified
    exact walletCalls.map_content_eq_iff.mp hchain.2

/-! ## A ledger of two days -/

namespace Sample

/-- Digests that differ whenever their texts do. -/
def env : Env where
  sha256 text := '#' :: text
  hmacSha256 secret body := secret.toList ++ body
  auditAnchorSecret := some "a secret of the auditors"
  sessionJwtSecret := none

theorem env_injective : Function.Injective env.sha256 := by
  intro a b h
  exact (List.cons.inj h).2

/-- A wallet call that was answered. -/
def call (id : String) (createdAt : Millis) : WalletCallRow where
  id := id
  operatorId := "operator"
  direction := .outbound
  endpoint := .bet
  requestUuid := id
  transactionUuid := some id
  referenceTransactionUuid := none
  sessionId := none
  roundId := none
  playerRef := some "player"
  amountMicro := some 10000
  currency := some "LKR"
  requestBody := .object []
  responseStatus := some "RS_OK"
  responseBody := some (.object [])
  httpStatus := none
  latencyMs := some 50
  attempt := 1
  succeeded := true
  createdAt := createdAt
  prevRowHash := none
  rowHash := none

/-- One call on each of two days, and no anchors. -/
def ledger : Db := ⟨["operator"], [call "a" 1000, call "b" 86401000], [], []⟩

/-- The first day is anchored. -/
def oneDay : Db := (anchorDay env ledger 5000).1

/-- Both days are anchored. -/
def twoDays : Db := (anchorDay env oneDay 86405000).1

/-- The rows each of the two anchors was written from. -/
def present : Nat → List WalletCallRow
  | 0 => walletCalls.found ledger.walletCalls (walletCalls.within "operator" 0 (0 + dayMs))
  | _ => walletCalls.found oneDay.walletCalls
      (walletCalls.within "operator" dayMs (dayMs + dayMs))

/-- Rows put in the place of the anchored ones. -/
def tampered (rows : List WalletCallRow) : Db := { twoDays with walletCalls := rows }

/-- The two anchors of a ledger whose rows were replaced. -/
theorem anchored {Q : Nat → AuditAnchor → Prop} {rows : List WalletCallRow}
    (h₀ : ∀ a, twoDays.auditAnchors[0]? = some a → Q 0 a)
    (h₁ : ∀ a, twoDays.auditAnchors[1]? = some a → Q 1 a) : Anchored (tampered rows) Q := by
  intro id a hid _
  change twoDays.auditAnchors[id]? = some a at hid
  match id, hid with
  | 0, hid => exact h₀ a hid
  | 1, hid => exact h₁ a hid
  | n + 2, hid =>
      have hlen : twoDays.auditAnchors.length = 2 := by decide +kernel
      rw [List.getElem?_eq_none (by omega)] at hid
      cases hid

/-- Both anchors were written by anchoring their day. -/
theorem written (rows : List WalletCallRow) :
    Anchored (tampered rows) fun id a => WrittenFrom env a (present id) := by
  refine anchored ?_ ?_
  · intro a ha
    have hget : oneDay.auditAnchors[0]? = some a := by
      have hfirst : oneDay.auditAnchors[0]?.any (·.periodDate = 0) = true := by decide +kernel
      obtain ⟨b, hb, hperiod⟩ := (Option.any_eq_true _ _).mp hfirst
      have hkept : twoDays.auditAnchors[0]? = some b := by
        refine anchorDay_getElem? hb ?_
        rw [of_decide_eq_true hperiod]
        decide
      rw [hb, ← hkept, ha]
    have hkey : a.periodDate = 0 ∧ a.streamName = "wallet_call" ∧ a.operatorId = some "operator" := by
      have hall : twoDays.auditAnchors[0]?.all (fun a => a.periodDate = 0 &&
        a.streamName = "wallet_call" && a.operatorId = some "operator") = true := by decide +kernel
      rw [ha] at hall
      simpa [and_assoc] using hall
    obtain ⟨hperiod, hstream, hop⟩ := hkey
    refine ⟨ledger, 5000, "operator", ⟨1, 1⟩, List.Pairwise.nil, List.mem_singleton.mpr rfl, ?_,
      List.mem_of_getElem? hget, hperiod, hstream, hop, ?_, ?_⟩
    · decide +kernel
    · rw [dayOf, hop, hperiod]
      rfl
    · exact List.ne_nil_of_length_pos (by decide +kernel)
  · intro a ha
    have hkey : a.periodDate = dayMs ∧ a.streamName = "wallet_call" ∧
        a.operatorId = some "operator" := by
      have hall : twoDays.auditAnchors[1]?.all (fun a => a.periodDate = dayMs &&
        a.streamName = "wallet_call" && a.operatorId = some "operator") = true := by decide +kernel
      rw [ha] at hall
      simpa [and_assoc] using hall
    obtain ⟨hperiod, hstream, hop⟩ := hkey
    refine ⟨oneDay, 86405000, "operator", ⟨1, 1⟩, ?_, ?_, ?_, List.mem_of_getElem? ha, hperiod,
      hstream, hop, ?_, ?_⟩
    · unfold UniqueAnchors
      decide +kernel
    · exact List.mem_of_getElem? (i := 0) (by decide +kernel)
    · decide +kernel
    · rw [dayOf, hop, hperiod]
      rfl
    · exact List.ne_nil_of_length_pos (by decide +kernel)

/-- Both anchors are verified against rows when a computation says so. -/
theorem verified {rows : List WalletCallRow}
    (h₀ : (verifyAnchor env (tampered rows) 0).any (·.verified) = true)
    (h₁ : (verifyAnchor env (tampered rows) 1).any (·.verified) = true) :
    Anchored (tampered rows) fun id _ =>
      (verifyAnchor env (tampered rows) id).any (·.verified) = true :=
  anchored (fun _ _ => h₀) fun _ _ => h₁

/-- The hash of the second call, after the first. -/
def lastHash : Text :=
  hashRow env (some (hashRow env none (walletCallHashInput (call "a" 1000))))
    (walletCallHashInput (call "b" 86401000))

/-- The second call is gone, and the first one bears its hash. -/
def deleted : List WalletCallRow := [{ call "a" 1000 with rowHash := some lastHash }]

end Sample

/-- The rows of a ledger that nobody touched are the ones that were anchored. -/
theorem anchored_untouched : Anchored (Sample.tampered Sample.twoDays.walletCalls) fun id a =>
    (dayOf (Sample.tampered Sample.twoDays.walletCalls) a).map walletCalls.fields =
      (Sample.present id).map walletCalls.fields := by
  refine (anchored_iff Sample.env_injective (Sample.written _)
    (Sample.verified (by decide +kernel) (by decide +kernel))).mpr (Sample.anchored ?_ ?_)
  · intro a ha
    have hall : Sample.twoDays.auditAnchors[0]?.all (fun a =>
      (dayOf (Sample.tampered Sample.twoDays.walletCalls) a).length = a.rowCount) = true := by
      decide +kernel
    rw [ha] at hall
    exact of_decide_eq_true hall
  · intro a ha
    have hall : Sample.twoDays.auditAnchors[1]?.all (fun a =>
      (dayOf (Sample.tampered Sample.twoDays.walletCalls) a).length = a.rowCount) = true := by
      decide +kernel
    rw [ha] at hall
    exact of_decide_eq_true hall

/-- **A deletion that verification does not notice**: the second call is deleted, and its hash is written
into the last row of the day before. -/
theorem anchored_deletion : ¬ ∀ (env : Env), Function.Injective env.sha256 →
    ∀ (db : Db) (present : Nat → List WalletCallRow),
      (Anchored db fun id a => WrittenFrom env a (present id)) →
      (Anchored db fun id _ => (verifyAnchor env db id).any (·.verified) = true) →
      Anchored db fun id a =>
        (dayOf db a).map walletCalls.fields = (present id).map walletCalls.fields := by
  intro h
  have hanchored := h Sample.env Sample.env_injective (Sample.tampered Sample.deleted) Sample.present
    (Sample.written _) (Sample.verified (by decide +kernel) (by decide +kernel))
  have hany : Sample.twoDays.auditAnchors[1]?.any (fun a => a.streamName = "wallet_call" &&
      (dayOf (Sample.tampered Sample.deleted) a).length = 0) = true := by decide +kernel
  obtain ⟨a, ha, hstream⟩ := (Option.any_eq_true _ _).mp hany
  simp only [Bool.and_eq_true, decide_eq_true_eq] at hstream
  have hlength := congrArg List.length (hanchored 1 a ha hstream.1)
  rw [List.length_map, List.length_map, hstream.2] at hlength
  have hpresent : (Sample.present 1).length = 1 := by decide +kernel
  rw [hpresent] at hlength
  exact absurd hlength (by decide)

end YantraRgs.AuditChain
