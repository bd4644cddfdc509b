import YantraRgs.Audit.Rehash
import YantraRgs.Properties.TamperEvidence

/-! # Anchors and the operations after them

A verification walks the rows of its day as they are now, from the hash that is stored now in the
last hashed row before the day. The program goes on writing both.

* **`Operation.Spares`** — the operations that leave what a verification reads alone.
* **`anchor_stays`** — an anchor that is verified stays verified over such operations.
* **`anchor_stale`** — a round that is settled after its day was anchored. -/

namespace YantraRgs.AuditChain

/-! ## What an operation must leave alone -/

section Stream

variable {R : Type} (env : Env) (S : Stream R)

/-- The text that the hash of a row is made from. -/
def Stream.text (r : R) : Text := canonicalJson (.object (S.hashInput r))

/-- Rows of one text have one content. -/
theorem Stream.content_of_text {r s : R} (h : S.text r = S.text s) : S.content r = S.content s :=
  canonicalJson_inj h

/-- A row is written and hashed without notice: it is none of the day, or its hashed columns stay as
they are; and it was not created before the day, or a hashed row stands behind it. -/
def SparesRow (rows : List R) (op : String) (t : Millis) (id : String) (f : R → R) : Prop :=
  ∀ r ∈ rows, S.id r = id →
    (S.within op t (t + dayMs) r = true → S.text (f r) = S.text r) ∧
    (S.earlier op t r = true → (behind S rows op t id).any S.hashed = true)

/-- Unhashed rows are hashed without notice: the last row before the day has its hash. -/
def SparesBackfill (rows : List R) (op : String) (t : Millis) : Prop :=
  ∀ r ∈ (S.found rows (S.earlier op t)).getLast?, S.hashed r = true

/-- A day is anchored without notice: an earlier one does not change the hash of the row that carries
the seam, and the day itself starts from the hash that verification starts from. -/
def SparesDay (rows : List R) (op : String) (t t' : Millis) : Prop :=
  (t' < t → Rehashed env S rows op t t') ∧
    (t' = t → S.found rows (S.within op t (t + dayMs)) = [] ∨
      (beforeTip S rows op t).getD [] = (seam S rows op t).getD [])

end Stream

/-- The operations that leave alone what a verification of wallet calls reads. -/
def Operation.SparesCalls (env : Env) (op : String) (t : Millis) (s : Clocked) : Operation → Prop
  | .answer id response =>
      SparesRow walletCalls s.db.walletCalls op t id response.complete
  | .backfillWalletCalls operatorId =>
      operatorId = op → SparesBackfill walletCalls s.db.walletCalls op t
  | .anchorDay date =>
      op ∈ s.db.operators → SparesDay env walletCalls s.db.walletCalls op t (startOfDay date)
  | _ => True

/-- The operations that leave alone what a verification of rounds reads. -/
def Operation.SparesRounds (env : Env) (op : String) (t : Millis) (s : Clocked) : Operation → Prop
  | .writeRound id write => ∀ r ∈ s.db.rounds, r.id = id →
      rounds.within op t (t + dayMs) r = true →
        rounds.text (write.apply s.now r) = rounds.text r
  | .backfillRounds operatorId => operatorId = op → SparesBackfill rounds s.db.rounds op t
  | .anchorDay date =>
      op ∈ s.db.operators → SparesDay env rounds s.db.rounds op t (startOfDay date)
  | _ => True

/-- **The operations that leave alone what a verification of an anchor reads.** -/
def Operation.Spares (env : Env) (a : AuditAnchor) (s : Clocked) (o : Operation) : Prop :=
  if a.streamName = "wallet_call" then o.SparesCalls env (a.operatorId.getD "") a.periodDate s
  else o.SparesRounds env (a.operatorId.getD "") a.periodDate s

/-- Every operation of a run leaves alone what a verification of an anchor reads. -/
def Spared (env : Env) (a : AuditAnchor) : Clocked → List Operation → Prop
  | _, [] => True
  | s, o :: ops => o.Spares env a s ∧ Spared env a (s.apply env o) ops

/-! ## Anchoring a day -/

section Turn

variable {R : Type} {env : Env} {S : Stream R}
variable {rows : List R} {op : String} {t t' : Millis}

/-- **Rows are found as they were** when none of the rows that a condition `c` covers was hashed. -/
theorem Relinked.found_covered {P : R → Prop} {rows' : List R} (h : Relinked S P rows rows')
    {c p : R → Bool}
    (hc : ∀ r s, S.operatorId s = S.operatorId r → S.stamp s = S.stamp r → c s = c r)
    (hP : ∀ r ∈ rows, c r = true → ¬ P r) (hp : ∀ r, p r = true → c r = true) :
    S.found rows' p = S.found rows p := by
  obtain ⟨f, hf, hfP, rfl⟩ := h
  have hfix : ∀ r ∈ rows, c r = true → f r = r := fun r hr hcr =>
    (hfP r hr).resolve_right (hP r hr hcr)
  rw [found_map hf.id_eq hf.stamp_eq]
  have hcond : (S.found rows fun r => p (f r)) = S.found rows p := by
    refine List.filter_congr ?_
    intro r hr
    by_cases hcr : c r = true
    · rw [hfix r ((List.mem_insertionSort _).mp hr) hcr]
    · -- a row that is not covered is found neither before nor after
      have hno : ∀ s, c s = c r → p s = false := by
        intro s hs
        by_contra hps
        exact hcr (hs ▸ hp s (by simpa using hps))
      rw [hno (f r) (hc r (f r) (hf.operatorId_eq r) (hf.stamp_eq r)), hno r rfl]
  rw [hcond]
  refine (List.map_congr_left fun r hr => ?_).trans (List.map_id' _)
  obtain ⟨hmem, hpr⟩ := mem_found.mp hr
  exact hfix r hmem (hp r hpr)

/-- The rows of an operator are found as they were when only other operators' rows were hashed. -/
theorem Relinked.found_eq {P : R → Prop} {rows' : List R} (h : Relinked S P rows rows')
    (hP : ∀ r ∈ rows, P r → S.operatorId r ≠ op) {p : R → Bool}
    (hp : ∀ r, p r = true → S.operatorId r = op) : S.found rows' p = S.found rows p := by
  refine h.found_covered (c := fun r => S.operatorId r = op) ?_ ?_ ?_
  · intro r s hop _
    rw [hop]
  · intro r hr hop hPr
    exact hP r hr hPr (of_decide_eq_true hop)
  · exact fun r hpr => decide_eq_true (hp r hpr)

/-- What precedes a day is as it was when only rows from that day on were hashed. -/
theorem before_of_relinked (op : String) {o : String} {u : Millis} {rows' : List R} (ht : t ≤ t')
    (h : Relinked S (fun r => S.within o t' u r = true) rows rows') :
    beforeTip S rows' op t = beforeTip S rows op t ∧ seam S rows' op t = seam S rows op t := by
  have hall : S.found rows' (S.earlier op t) = S.found rows (S.earlier op t) := by
    refine h.found_covered (c := S.earlier op t) ?_ ?_ fun _ hr => hr
    · exact fun r s hop hstamp => earlier_congr hop hstamp op t
    · intro r _ hearlier
      rw [within_of_earlier hearlier ht o]
      exact Bool.false_ne_true
  constructor
  · rw [beforeTip, beforeTip, hall]
  · rw [seam_eq_getLast?, seam_eq_getLast?, hall]

theorem operatorId_of_earlier {r : R} (h : S.earlier op t r = true) : S.operatorId r = op := by
  simp only [Stream.earlier, Bool.and_eq_true, decide_eq_true_eq] at h
  exact h.1

theorem operatorId_of_within {r : R} {u : Millis} (h : S.within op t u r = true) :
    S.operatorId r = op := by
  simp only [Stream.within, Bool.and_eq_true, decide_eq_true_eq] at h
  exact h.1

/-- **One turn of the loop is not read**, and leaves the turns behind it unread. -/
theorem unseen_summarise (hkeyed : S.Keyed rows) (o : String)
    (hspares : o = op → SparesDay env S rows op t t') (hdays : t' < t → t' + dayMs ≤ t) :
    Unseen S op t rows (summariseDay env S rows o t' (t' + dayMs)).1 ∧
      (SparesDay env S rows op t t' →
        SparesDay env S (summariseDay env S rows o t' (t' + dayMs)).1 op t t') := by
  have hrows := summariseDay_within env hkeyed o t' (t' + dayMs)
  by_cases ho : o = op
  · subst ho
    by_cases hlt : t' < t
    · obtain ⟨hunseen, hrehashed⟩ := unseen_rehash ((hspares rfl).1 hlt) hkeyed (hdays hlt)
      exact ⟨hunseen, fun _ => ⟨fun _ => hrehashed, fun heq => absurd heq (Nat.ne_of_lt hlt)⟩⟩
    · have hle : t ≤ t' := Nat.le_of_not_lt hlt
      have hunseen : Unseen S o t rows (summariseDay env S rows o t' (t' + dayMs)).1 :=
        unseen_relinked hrows fun r _ hearlier hwithin => by
          rw [within_of_earlier hearlier hle o] at hwithin
          exact Bool.false_ne_true hwithin
      refine ⟨hunseen, fun h => ⟨fun hlt' => absurd hlt' hlt, fun heq => ?_⟩⟩
      rcases h.2 heq with hnil | hstart
      · left
        have hlen := congrArg List.length hunseen.content_eq
        rw [List.length_map, List.length_map, hnil] at hlen
        exact List.length_eq_zero_iff.mp hlen
      · -- the rows before the day are not hashed again, so it starts from the same hash
        right
        rw [hunseen.seam_eq, ← hstart, (before_of_relinked o hle hrows).1]
  · have hother : ∀ r ∈ rows, S.within o t' (t' + dayMs) r = true → S.operatorId r ≠ op := by
      intro r _ hwithin hop
      exact ho ((operatorId_of_within hwithin).symm.trans hop)
    have hunseen : Unseen S op t rows (summariseDay env S rows o t' (t' + dayMs)).1 :=
      unseen_relinked hrows fun r hr hearlier hwithin =>
        hother r hr hwithin (operatorId_of_earlier hearlier)
    have hfound : ∀ p : R → Bool, (∀ r, p r = true → S.operatorId r = op) →
        S.found (summariseDay env S rows o t' (t' + dayMs)).1 p = S.found rows p :=
      fun p hp => hrows.found_eq hother hp
    have hearlier := fun u => hfound (S.earlier op u) fun r => operatorId_of_earlier
    have hwithin := fun u v => hfound (S.within op u v) fun r => operatorId_of_within
    have hbearer := hfound (fun r => S.earlier op t r && (S.hashed r ||
      S.within op t' (t' + dayMs) r)) fun r hr => operatorId_of_earlier ((Bool.and_eq_true _ _).mp hr).1
    refine ⟨hunseen, fun h => ⟨fun hlt => ?_, fun heq => ?_⟩⟩
    · have hrehashed := h.1 hlt
      simp only [Rehashed, bearer, dayTip, beforeTip, hbearer, hearlier, hwithin] at hrehashed ⊢
      exact hrehashed
    · have hstart := h.2 heq
      rw [hunseen.seam_eq]
      simp only [beforeTip, hearlier, hwithin] at hstart ⊢
      exact hstart

end Turn

/-! ## A verified anchor -/

/-- Two anchors of one day, stream and operator. -/
structure AuditAnchor.Of (a : AuditAnchor) (name op : String) (t : Millis) : Prop where
  streamName : a.streamName = name
  operatorId : a.operatorId = some op
  periodDate : a.periodDate = t

/-- The tip that a verification of an anchor computes. -/
def shownTip (env : Env) (name op : String) (t : Millis) (db : Db) : Text :=
  if name = "wallet_call" then seenTip env walletCalls db.walletCalls op t
  else seenTip env rounds db.rounds op t

/-- A verified anchor, in tables whose rows are told apart by their identifiers. -/
structure Stands (env : Env) (id : Nat) (name op : String) (t : Millis) (db : Db) : Prop where
  keyedCalls : walletCalls.Keyed db.walletCalls
  keyedRounds : rounds.Keyed db.rounds
  anchor : ∃ a, db.auditAnchors[id]? = some a ∧ a.Of name op t ∧
    shownTip env name op t db = a.tipHash

section Stands

variable {env : Env} {id : Nat} {name op : String} {t t' : Millis} {db : Db}

/-- The verdict on an anchor. -/
theorem verifyAnchor_iff {a : AuditAnchor} (ha : db.auditAnchors[id]? = some a)
    (hof : a.Of name op t) : (verifyAnchor env db id).any (·.verified) = true ↔
      shownTip env name op t db = a.tipHash := by
  simp only [verifyAnchor, ha, hof.operatorId, hof.streamName, shownTip, ← hof.periodDate, seenTip]
  split
  · rw [Option.any_some, verifyStream_verified]
  · rw [Option.any_some, verifyStream_verified]

/-- Writing an anchor leaves the rows alone. -/
theorem record_rows (env : Env) (db : Db) (t' : Millis) (tally : Tally) (s : Option AnchorSummary) :
    (record env db t' tally s).1.walletCalls = db.walletCalls ∧
      (record env db t' tally s).1.rounds = db.rounds ∧
      (record env db t' tally s).1.operators = db.operators := by
  rcases record_cases env db t' tally s with ⟨heq, -⟩ | ⟨summary, signature, -, heq⟩
  · rw [heq]
    exact ⟨rfl, rfl, rfl⟩
  · rw [heq]
    exact ⟨rfl, rfl, rfl⟩

/-- An anchor stays when the anchors of another stream are written. -/
theorem record_other (env : Env) (db : Db) (t' : Millis) {a : AuditAnchor}
    (ha : db.auditAnchors[id]? = some a) (tally : Tally) {s : Option AnchorSummary}
    (hs : ∀ summary ∈ s, summary.stream ≠ a.streamName) :
    (record env db t' tally s).1.auditAnchors[id]? = some a := by
  rcases record_cases env db t' tally s with ⟨heq, -⟩ | ⟨summary, signature, hsummary, heq⟩
  · rw [heq]
    exact ha
  · rw [heq]
    rcases getElem?_upsert ha (summary.anchor t' signature) with hget | ⟨hkey, -⟩
    · exact hget
    · simp only [AuditAnchor.sameKey, AnchorSummary.anchor, Bool.and_eq_true] at hkey
      exact absurd (of_decide_eq_true hkey.1.2) (hs summary hsummary)

/-- **A turn of the loop leaves a verified anchor of its stream verified.** -/
theorem record_own {R : Type} (S : Stream R) (db : Db) {rows : List R} {a : AuditAnchor}
    (ha : db.auditAnchors[id]? = some a) (hof : a.Of S.name op t)
    (hshown : seenTip env S rows op t = a.tipHash) (tally : Tally) (o : String)
    (hspares : o = op → SparesDay env S rows op t t') :
    ∃ b, (record env db t' tally (summariseDay env S rows o t' (t' + dayMs)).2).1.auditAnchors[id]? =
        some b ∧ b.Of S.name op t ∧ seenTip env S rows op t = b.tipHash := by
  rcases record_cases env db t' tally (summariseDay env S rows o t' (t' + dayMs)).2 with
    ⟨heq, -⟩ | ⟨s, signature, hs, heq⟩
  · rw [heq]
    exact ⟨a, ha, hof, hshown⟩
  · rw [heq]
    rcases getElem?_upsert ha (s.anchor t' signature) with hget | ⟨hkey, hget⟩
    · exact ⟨a, hget, hof, hshown⟩
    · -- the anchor is written again, from the hash that verification starts from
      obtain ⟨hne, hname, hoperator, -, htip⟩ := summariseDay_some hs
      simp only [AuditAnchor.sameKey, AnchorSummary.anchor, Bool.and_eq_true] at hkey
      have hday : t' = t := (of_decide_eq_true hkey.1.1).trans hof.periodDate
      have ho : o = op := by
        have hop := (of_decide_eq_true hkey.2).trans hof.operatorId
        exact hoperator.symm.trans (Option.some.inj hop)
      subst hday
      subst ho
      refine ⟨_, hget, ⟨hname, congrArg some hoperator, rfl⟩, ?_⟩
      change seenTip env S rows o t' = s.tipHash
      rw [htip]
      exact (S.tip_congr (((hspares rfl).2 rfl).resolve_left hne) rfl).symm

/-- A turn of the loop over the wallet calls. -/
theorem Stands.calls (h : Stands env id name op t db) (hname : name = "wallet_call" ∨ name = "round")
    (hdays : t' < t → t' + dayMs ≤ t) (tally : Tally) (o : String)
    (hspares : name = "wallet_call" → o = op → SparesDay env walletCalls db.walletCalls op t t') :
    Stands env id name op t (anchorWalletCalls env db t' tally o).1 ∧
      (name = "wallet_call" → SparesDay env walletCalls db.walletCalls op t t' →
        SparesDay env walletCalls (anchorWalletCalls env db t' tally o).1.walletCalls op t t') := by
  let next : Db := { db with
    walletCalls := (summariseWalletCallDay env db.walletCalls o t' (t' + dayMs)).1 }
  have hrows := record_rows env next t' tally
    (summariseWalletCallDay env db.walletCalls o t' (t' + dayMs)).2
  have hkeyed := h.keyedCalls.relinked (summariseDay_within env h.keyedCalls o t' (t' + dayMs))
  obtain ⟨a, ha, hof, hshown⟩ := h.anchor
  rcases hname with rfl | rfl
  · obtain ⟨hunseen, hstays⟩ := unseen_summarise h.keyedCalls o (hspares rfl) hdays
    obtain ⟨b, hb, hbof, hbshown⟩ := record_own walletCalls next ha hof hshown tally o
      (hspares rfl)
    refine ⟨⟨?_, ?_, b, hb, hbof, ?_⟩, fun _ h => ?_⟩
    · rw [anchorWalletCalls, hrows.1]
      exact hkeyed
    · rw [anchorWalletCalls, hrows.2.1]
      exact h.keyedRounds
    · rw [shownTip, if_pos rfl, ← hbshown, anchorWalletCalls, hrows.1]
      exact hunseen.seenTip_eq
    · rw [anchorWalletCalls, hrows.1]
      exact hstays h
  · have hother := record_other env next t' ha tally
      (s := (summariseWalletCallDay env db.walletCalls o t' (t' + dayMs)).2) (by
        intro s hs
        rw [(summariseDay_some hs).2.1, hof.streamName]
        decide)
    refine ⟨⟨?_, ?_, a, hother, hof, ?_⟩, fun hcalls => absurd hcalls (by decide)⟩
    · rw [anchorWalletCalls, hrows.1]
      exact hkeyed
    · rw [anchorWalletCalls, hrows.2.1]
      exact h.keyedRounds
    · rw [← hshown, shownTip, shownTip, anchorWalletCalls, hrows.2.1]
      rfl

/-- A turn of the loop over the rounds. -/
theorem Stands.rounds (h : Stands env id name op t db)
    (hname : name = "wallet_call" ∨ name = "round")
    (hdays : t' < t → t' + dayMs ≤ t) (tally : Tally) (o : String)
    (hspares : name = "round" → o = op → SparesDay env rounds db.rounds op t t') :
    Stands env id name op t (anchorRounds env db t' tally o).1 ∧
      (name = "round" → SparesDay env AuditChain.rounds db.rounds op t t' →
        SparesDay env AuditChain.rounds (anchorRounds env db t' tally o).1.rounds op t t') := by
  let next : Db := { db with
    rounds := (summariseRoundDay env db.rounds o t' (t' + dayMs)).1 }
  have hrows := record_rows env next t' tally
    (summariseRoundDay env db.rounds o t' (t' + dayMs)).2
  have hkeyed := h.keyedRounds.relinked (summariseDay_within env h.keyedRounds o t' (t' + dayMs))
  obtain ⟨a, ha, hof, hshown⟩ := h.anchor
  rcases hname with rfl | rfl
  · have hother := record_other env next t' ha tally
      (s := (summariseRoundDay env db.rounds o t' (t' + dayMs)).2) (by
        intro s hs
        rw [(summariseDay_some hs).2.1, hof.streamName]
        decide)
    refine ⟨⟨?_, ?_, a, hother, hof, ?_⟩, fun hcalls => absurd hcalls (by decide)⟩
    · rw [anchorRounds, hrows.1]
      exact h.keyedCalls
    · rw [anchorRounds, hrows.2.1]
      exact hkeyed
    · rw [← hshown, shownTip, shownTip, anchorRounds, hrows.1]
      rfl
  · obtain ⟨hunseen, hstays⟩ := unseen_summarise h.keyedRounds o (hspares rfl) hdays
    obtain ⟨b, hb, hbof, hbshown⟩ := record_own AuditChain.rounds next ha hof hshown tally o
      (hspares rfl)
    refine ⟨⟨?_, ?_, b, hb, hbof, ?_⟩, fun _ h => ?_⟩
    · rw [anchorRounds, hrows.1]
      exact h.keyedCalls
    · rw [anchorRounds, hrows.2.1]
      exact hkeyed
    · rw [shownTip, if_neg (by decide), ← hbshown, anchorRounds, hrows.2.1]
      exact hunseen.seenTip_eq
    · rw [anchorRounds, hrows.2.1]
      exact hstays h

/-- Wallet calls change unread. -/
theorem Stands.of_calls (h : Stands env id name op t db) {rows : List WalletCallRow}
    (hkeyed : walletCalls.Keyed rows)
    (hunseen : name = "wallet_call" → Unseen walletCalls op t db.walletCalls rows) :
    Stands env id name op t { db with walletCalls := rows } := by
  obtain ⟨a, ha, hof, hshown⟩ := h.anchor
  refine ⟨hkeyed, h.keyedRounds, a, ha, hof, ?_⟩
  rw [← hshown, shownTip, shownTip]
  split
  · next hname => exact (hunseen hname).seenTip_eq
  · rfl

/-- Rounds change unread. -/
theorem Stands.of_rounds (h : Stands env id name op t db) {rows : List RoundRow}
    (hkeyed : AuditChain.rounds.Keyed rows)
    (hunseen : name ≠ "wallet_call" → Unseen AuditChain.rounds op t db.rounds rows) :
    Stands env id name op t { db with rounds := rows } := by
  obtain ⟨a, ha, hof, hshown⟩ := h.anchor
  refine ⟨h.keyedCalls, hkeyed, a, ha, hof, ?_⟩
  rw [← hshown, shownTip, shownTip]
  split
  · rfl
  · next hname => exact (hunseen hname).seenTip_eq

end Stands

/-! ## Operations -/

section Operations

variable {env : Env} {id : Nat} {name op : String} {t : Millis} {s : Clocked}

/-- A row created after the day is not created before it, nor within it. -/
theorem stamped_after {R : Type} {S : Stream R} {row : R} {now : Millis} (op : String)
    (hstamp : S.stamp row = some now) (hpast : t + dayMs ≤ now) :
    S.earlier op t row = false ∧ S.within op t (t + dayMs) row = false := by
  have hday : t ≤ now := Nat.le_trans (Nat.le_add_right t dayMs) hpast
  have hlt : ¬ now < t := Nat.not_lt.mpr hday
  have hend : ¬ now < t + dayMs := Nat.not_lt.mpr hpast
  constructor
  · rw [Stream.earlier, hstamp, Option.any_some, decide_eq_false hlt, Bool.and_false]
  · rw [Stream.within, hstamp, Option.any_some, decide_eq_false hend, Bool.and_false,
      Bool.and_false]

/-- Days start at midnight, so one of them ends before another one starts. -/
theorem startOfDay_add_le {date date' : Millis} (h : startOfDay date' < startOfDay date) :
    startOfDay date' + dayMs ≤ startOfDay date := by
  have hlt : date' / dayMs < date / dayMs := Nat.lt_of_mul_lt_mul_right h
  calc startOfDay date' + dayMs = (date' / dayMs + 1) * dayMs := (Nat.succ_mul _ _).symm
    _ ≤ date / dayMs * dayMs := Nat.mul_le_mul_right dayMs hlt

/-- Backfilling is not read. -/
theorem unseen_backfill {R : Type} {S : Stream R} {rows : List R} (hkeyed : S.Keyed rows)
    (o : String) (hspares : o = op → SparesBackfill S rows op t) :
    Unseen S op t rows (backfillChain env S rows o).1 := by
  have hrows := backfillChain_relinked env hkeyed o
  by_cases ho : o = op
  · refine unseen_relinked_of_last hrows ?_
    intro r hr
    have hhashed := hspares ho r hr
    exact ⟨hhashed, fun h => by rw [hhashed] at h; exact Bool.noConfusion h.2⟩
  · refine unseen_relinked hrows ?_
    rintro r - hearlier ⟨hop, -⟩
    exact ho (hop.symm.trans (operatorId_of_earlier hearlier))

theorem Stands.createRound (h : Stands env id name op t s.db) (hpast : t + dayMs ≤ s.now)
    (draft : RoundRow) (chained : Bool) :
    Stands env id name op t (s.apply env (.createRound draft chained)).db := by
  simp only [Clocked.apply]
  generalize hrow : freshRound s.now draft = row
  have hstamp : AuditChain.rounds.stamp row = some s.now := by
    rw [← hrow]
    rfl
  obtain ⟨hearlier, hwithin⟩ := stamped_after op hstamp hpast
  split
  · exact h
  · next hfresh =>
      have hkeyed : AuditChain.rounds.Keyed (row :: s.db.rounds) := by
        refine h.keyedRounds.insert ?_
        intro r hr hid
        exact hfresh (List.any_eq_true.mpr ⟨r, hr, decide_eq_true hid⟩)
      have hinsert := unseen_insert s.db.rounds hearlier hwithin
      cases chained with
      | false => exact h.of_rounds hkeyed fun _ => hinsert
      | true =>
          have hchain : Relinked AuditChain.rounds (AuditChain.rounds.id · = row.id)
              (row :: s.db.rounds) (chainRow env AuditChain.rounds (row :: s.db.rounds) row) :=
            Relinked.update _ _ _ _
          refine h.of_rounds (hkeyed.relinked hchain) fun _ => hinsert.trans ?_
          refine unseen_relinked hchain ?_
          intro r hr hr' hid
          rw [hkeyed.eq hr List.mem_cons_self hid, hearlier] at hr'
          exact Bool.noConfusion hr'

theorem Stands.writeRound (h : Stands env id name op t s.db) (round : String) (write : RoundWrite)
    (hspares : name ≠ "wallet_call" →
      (Operation.writeRound round write).SparesRounds env op t s) :
    Stands env id name op t (s.apply env (.writeRound round write)).db := by
  have hwrite : ∀ r : RoundRow, (write.apply s.now r).id = r.id ∧
      (write.apply s.now r).operatorId = r.operatorId ∧
      (write.apply s.now r).startedAt = r.startedAt ∧
      (write.apply s.now r).rowHash = r.rowHash := by
    intro r
    cases write <;> exact ⟨rfl, rfl, rfl, rfl⟩
  refine h.of_rounds ?_ fun hname => ?_
  · refine h.keyedRounds.map ?_
    intro r
    split
    · exact (hwrite r).1
    · rfl
  · refine unseen_map_of_rowHash ?_ ?_ ?_ ?_ ?_
    · intro r
      split
      · exact (hwrite r).1
      · rfl
    · intro r
      split
      · exact (hwrite r).2.1
      · rfl
    · intro r
      split
      · exact (hwrite r).2.2.1
      · rfl
    · intro r
      split
      · exact (hwrite r).2.2.2
      · rfl
    · intro r hr hday
      split
      · next hid => exact AuditChain.rounds.content_of_text (hspares hname r hr hid hday)
      · rfl

theorem Stands.journal (h : Stands env id name op t s.db) (hpast : t + dayMs ≤ s.now)
    (draft : WalletCallRow) : Stands env id name op t (s.apply env (.journal draft)).db := by
  have hstamp : walletCalls.stamp (freshCall s.now draft) = some s.now := rfl
  obtain ⟨hearlier, hwithin⟩ := stamped_after op hstamp hpast
  simp only [Clocked.apply, insertRow]
  split
  · exact h
  · next hfresh =>
      refine h.of_calls (h.keyedCalls.insert ?_) fun _ => unseen_insert _ hearlier hwithin
      intro r hr hid
      exact hfresh (List.any_eq_true.mpr ⟨r, hr, decide_eq_true hid⟩)

theorem Stands.answer (h : Stands env id name op t s.db) (call : String) (response : CallResponse)
    (hspares : name = "wallet_call" → (Operation.answer call response).SparesCalls env op t s) :
    Stands env id name op t (s.apply env (.answer call response)).db := by
  simp only [Clocked.apply]
  split
  · exact h
  · next found _ =>
      refine h.of_calls ?_ fun hname => ?_
      · refine h.keyedCalls.map ?_
        intro r
        split <;> rfl
      · refine unseen_update (fun r => rfl) (fun r => rfl) (fun r => rfl) h.keyedCalls ?_ ?_
        · intro r hr hid hday
          exact walletCalls.content_of_text ((hspares hname r hr hid).1 hday)
        · intro r hr hid hearlier
          exact (hspares hname r hr hid).2 hearlier

theorem Stands.anchorDay (h : Stands env id name op t s.db)
    (hname : name = "wallet_call" ∨ name = "round") (ht : t = startOfDay t) (date : Millis)
    (hcalls : name = "wallet_call" → (Operation.anchorDay date).SparesCalls env op t s)
    (hrounds : name = "round" → (Operation.anchorDay date).SparesRounds env op t s) :
    Stands env id name op t (s.apply env (.anchorDay date)).db := by
  have hdays : startOfDay date < t → startOfDay date + dayMs ≤ t := by
    rw [ht]
    exact startOfDay_add_le
  have hkeeps := anchorOperators_keeps env (startOfDay date)
    (I := fun db => Stands env id name op t db ∧
      (op ∈ s.db.operators → name = "wallet_call" →
        SparesDay env walletCalls db.walletCalls op t (startOfDay date)) ∧
      (op ∈ s.db.operators → name = "round" →
        SparesDay env AuditChain.rounds db.rounds op t (startOfDay date)))
    s.db.operators s.db ⟨0, 0⟩ ?_ ?_ ⟨h, fun hop hn => hcalls hn hop, fun hop hn => hrounds hn hop⟩
  · exact hkeeps.1
  · rintro o ho db tally ⟨hstands, hc, hr⟩
    obtain ⟨hnext, hkept⟩ := hstands.calls hname hdays tally o fun hn heq => hc (heq ▸ ho) hn
    refine ⟨hnext, fun hop hn => hkept hn (hc hop hn), fun hop hn => ?_⟩
    rw [anchorWalletCalls, (record_rows _ _ _ _ _).2.1]
    exact hr hop hn
  · rintro o ho db tally ⟨hstands, hc, hr⟩
    obtain ⟨hnext, hkept⟩ := hstands.rounds hname hdays tally o fun hn heq => hr (heq ▸ ho) hn
    refine ⟨hnext, fun hop hn => ?_, fun hop hn => hkept hn (hr hop hn)⟩
    rw [anchorRounds, (record_rows _ _ _ _ _).1]
    exact hc hop hn

/-- **One operation leaves a verified anchor verified.** -/
theorem Stands.apply (h : Stands env id name op t s.db) (hpast : t + dayMs ≤ s.now)
    (hname : name = "wallet_call" ∨ name = "round") (ht : t = startOfDay t) (o : Operation)
    (hcalls : name = "wallet_call" → o.SparesCalls env op t s)
    (hrounds : name ≠ "wallet_call" → o.SparesRounds env op t s) :
    Stands env id name op t (s.apply env o).db := by
  cases o with
  | tick => exact h
  | createRound draft chained => exact h.createRound hpast draft chained
  | writeRound round write => exact h.writeRound round write hrounds
  | journal draft => exact h.journal hpast draft
  | answer call response => exact h.answer call response hcalls
  | backfillWalletCalls o =>
      exact h.of_calls (h.keyedCalls.relinked (backfillChain_relinked env h.keyedCalls o))
        fun hn => unseen_backfill h.keyedCalls o (hcalls hn)
  | backfillRounds o =>
      exact h.of_rounds (h.keyedRounds.relinked (backfillChain_relinked env h.keyedRounds o))
        fun hn => unseen_backfill h.keyedRounds o (hrounds hn)
  | anchorDay date =>
      exact h.anchorDay hname ht date hcalls fun hn => hrounds (by rw [hn]; decide)

/-- Time does not go back. -/
theorem Clocked.now_apply_le (env : Env) (s : Clocked) (o : Operation) :
    s.now ≤ (s.apply env o).now := by
  cases o with
  | tick elapsed => exact Nat.le_add_right s.now elapsed
  | createRound | answer =>
      simp only [Clocked.apply]
      split <;> exact Nat.le_refl _
  | writeRound | journal | backfillWalletCalls | backfillRounds | anchorDay => exact Nat.le_refl _

end Operations

/-! ## Runs -/

/-- An anchor as anchoring a day writes it. -/
structure AuditAnchor.Dated (a : AuditAnchor) : Prop where
  streamName : a.streamName = "wallet_call" ∨ a.streamName = "round"
  operatorId : a.operatorId.isSome = true
  periodDate : a.periodDate = startOfDay a.periodDate

/-- **A verified anchor of a past day stays verified** over every run of operations that leave alone
what its verification reads. -/
theorem anchor_stays {env : Env} {s : Clocked} {id : Nat} {a : AuditAnchor}
    {ops : List Operation} (hcalls : walletCalls.Keyed s.db.walletCalls)
    (hrounds : rounds.Keyed s.db.rounds) (ha : s.db.auditAnchors[id]? = some a) (hdated : a.Dated)
    (hpast : a.periodDate + dayMs ≤ s.now)
    (hverified : (verifyAnchor env s.db id).any (·.verified) = true) (hspared : Spared env a s ops) :
    (verifyAnchor env (s.run env ops).db id).any (·.verified) = true := by
  obtain ⟨op, hop⟩ := Option.isSome_iff_exists.mp hdated.operatorId
  have hof : a.Of a.streamName op a.periodDate := ⟨rfl, hop, rfl⟩
  have hstands : Stands env id a.streamName op a.periodDate s.db :=
    ⟨hcalls, hrounds, a, ha, hof, (verifyAnchor_iff ha hof).mp hverified⟩
  clear ha hverified hcalls hrounds
  have hrun : Stands env id a.streamName op a.periodDate (s.run env ops).db := by
    induction ops generalizing s with
    | nil => exact hstands
    | cons o ops ih =>
        obtain ⟨hspares, hrest⟩ := hspared
        rw [Operation.Spares, hop] at hspares
        refine ih (Nat.le_trans hpast (s.now_apply_le env o)) hrest ?_
        refine hstands.apply hpast hdated.streamName hdated.periodDate o ?_ ?_
        · intro hname
          rwa [if_pos hname] at hspares
        · intro hname
          rwa [if_neg hname] at hspares
  obtain ⟨b, hb, hbof, hbshown⟩ := hrun.anchor
  exact (verifyAnchor_iff hb hbof).mpr hbshown

/-! ## A round over midnight -/

namespace Sample

/-- A round whose result is there. -/
def round (id : String) (startedAt : Millis) : RoundRow where
  id := id
  operatorId := "operator"
  sessionId := "session"
  gameCode := "dice"
  currency := "LKR"
  nonce := 0
  state := .result
  outcomeType := some "DICE"
  outcomeData := some (.object [])
  gameConfigVersion := none
  serverSeedHash := "seed"
  clientSeed := "client"
  rngVersion := "v1"
  buildHash := none
  totalBetsMicro := 0
  totalPayoutsMicro := 0
  startedAt := some startedAt
  rolledAt := some startedAt
  settledAt := none
  voidedAt := none
  startedAtMonoNs := none
  prevRowHash := none
  rowHash := none

/-- The second day has begun, and the first one is anchored with a round that is not settled. -/
def overnight : Clocked :=
  ⟨86405000, (anchorDay env ⟨["operator"], [], [round "r" 86399000], []⟩ 5000).1⟩

/-- The anchor of that round's day. -/
theorem overnight_anchor : ∃ a, overnight.db.auditAnchors[0]? = some a ∧ a.Of "round" "operator" 0 := by
  have hany : overnight.db.auditAnchors[0]?.any (fun a => a.streamName = "round" &&
      a.operatorId = some "operator" && a.periodDate = 0) = true := by decide +kernel
  obtain ⟨a, ha, hkey⟩ := (Option.any_eq_true _ _).mp hany
  simp only [Bool.and_eq_true, decide_eq_true_eq] at hkey
  exact ⟨a, ha, hkey.1.1, hkey.1.2, hkey.2⟩

/-- The round is verified as it was anchored. -/
theorem overnight_verified : (verifyAnchor env overnight.db 0).any (·.verified) = true := by
  decide +kernel

theorem overnight_keyed : walletCalls.Keyed overnight.db.walletCalls ∧
    rounds.Keyed overnight.db.rounds := by
  unfold Stream.Keyed
  decide +kernel

/-- The anchor is one that anchoring a day writes. -/
theorem dated {a : AuditAnchor} (h : a.Of "round" "operator" 0) : a.Dated where
  streamName := .inr h.streamName
  operatorId := by rw [h.operatorId]; rfl
  periodDate := by rw [h.periodDate]; rfl

/-- A day later another round is created, settled and anchored. -/
def nextDay : List Operation :=
  [.tick 1000, .createRound (round "s" 0) true, .writeRound "s" (.settle 500), .anchorDay 86406000]

end Sample

/-- The anchor of the first day is still verified after the second one. -/
theorem anchor_stays_nextDay :
    (verifyAnchor Sample.env (Sample.overnight.run Sample.env Sample.nextDay).db 0).any
      (·.verified) = true := by
  obtain ⟨a, ha, hof⟩ := Sample.overnight_anchor
  have hspares : ∀ (s : Clocked) (o : Operation), o.SparesRounds Sample.env "operator" 0 s →
      o.Spares Sample.env a s := by
    intro s o h
    rw [Operation.Spares, hof.streamName, hof.operatorId, hof.periodDate, if_neg (by decide)]
    exact h
  refine anchor_stays Sample.overnight_keyed.1 Sample.overnight_keyed.2 ha (Sample.dated hof) ?_
    Sample.overnight_verified ⟨hspares _ _ trivial, hspares _ _ trivial, hspares _ _ ?_,
      hspares _ _ ?_, trivial⟩
  · rw [hof.periodDate]
    decide
  · simp only [Operation.SparesRounds]
    decide +kernel
  · exact fun _ => ⟨fun h => absurd h (by decide), fun h => absurd h (by decide)⟩

/-- **An anchor that goes stale**: the round of the anchored day is settled. -/
theorem anchor_stale : ¬ ∀ (env : Env) (s : Clocked) (id : Nat) (a : AuditAnchor)
    (ops : List Operation), walletCalls.Keyed s.db.walletCalls → rounds.Keyed s.db.rounds →
      s.db.auditAnchors[id]? = some a → a.Dated → a.periodDate + dayMs ≤ s.now →
      (verifyAnchor env s.db id).any (·.verified) = true →
      (verifyAnchor env (s.run env ops).db id).any (·.verified) = true := by
  intro h
  obtain ⟨a, ha, hof⟩ := Sample.overnight_anchor
  have hstays := h Sample.env Sample.overnight 0 a [.writeRound "r" (.settle 500)]
    Sample.overnight_keyed.1 Sample.overnight_keyed.2 ha (Sample.dated hof)
    (by rw [hof.periodDate]; decide) Sample.overnight_verified
  have hstale : (verifyAnchor Sample.env (Sample.overnight.run Sample.env
      [.writeRound "r" (.settle 500)]).db 0).any (·.verified) = false := by decide +kernel
  rw [hstale] at hstays
  exact Bool.noConfusion hstays

end YantraRgs.AuditChain
