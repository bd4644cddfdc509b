import YantraRgs.Audit.Tips

/-! # Anchoring a day

* **`summariseDay_some`**, **`summariseDay_relinked`** — the summary of a day, and the rows behind.
* **`upsert`** keeps one anchor for each day, stream and operator.
* **`anchorDay_writes`** — the anchors that anchoring a day leaves behind are those of its rows. -/

namespace YantraRgs.AuditChain

/-! ## The summary of a day -/

section Summary

variable {R : Type} (env : Env) (S : Stream R)

/-- Repairing a day writes the hash columns of its rows. -/
theorem repair_relinked (day : List R) : ∀ (prev : Option Text) (rows : List R),
    Relinked S (fun r => ∃ d ∈ day, S.id r = S.id d) rows (repair env S prev day rows).1 := by
  induction day with
  | nil => exact fun _ rows => .refl rows
  | cons d day ih =>
      intro prev rows
      rw [repair]
      have hfirst : Relinked S (fun r => ∃ e ∈ d :: day, S.id r = S.id e) rows
          (if S.rowHash d ≠ some (hashRow env prev (S.hashInput d)) ∨ S.prevRowHash d ≠ prev then
            S.update rows (S.id d) fun x => S.link x prev (hashRow env prev (S.hashInput d))
          else rows) := by
        split
        · exact (Relinked.update rows (S.id d) prev _).mono fun r _ hr => ⟨d, List.mem_cons_self, hr⟩
        · exact .refl rows
      refine hfirst.trans ((ih (some (hashRow env prev (S.hashInput d))) _).mono ?_)
      rintro r - ⟨e, he, hid⟩
      exact ⟨e, List.mem_cons_of_mem d he, hid⟩

variable {env S}
variable {rows : List R} {op : String} {t u : Millis}

/-- A day without rows has no summary. -/
theorem summariseDay_of_nil (h : S.found rows (S.within op t u) = []) :
    summariseDay env S rows op t u = (rows, none) := by
  simp only [summariseDay, h, List.head?_nil]

/-- The summary of a day with rows, and the rows behind it. -/
theorem summariseDay_of_ne_nil (env : Env) (h : S.found rows (S.within op t u) ≠ []) :
    ∃ s : AnchorSummary, summariseDay env S rows op t u =
        ((repair env S (beforeTip S rows op t) (S.found rows (S.within op t u)) rows).1, some s) ∧
      s.stream = S.name ∧ s.operatorId = op ∧
      s.rowCount = (S.found rows (S.within op t u)).length ∧
      s.tipHash = S.tip env (beforeTip S rows op t) (S.found rows (S.within op t u)) := by
  rw [← repair_tip S env _ _ rows]
  simp only [summariseDay]
  cases hday : S.found rows (S.within op t u) with
  | nil => exact absurd hday h
  | cons r day =>
      simp only [List.head?_cons, List.getLast?_eq_some_getLast (List.cons_ne_nil r day)]
      exact ⟨_, rfl, rfl, rfl, rfl, rfl⟩

/-- **The summary of a day.** -/
theorem summariseDay_some {s : AnchorSummary} (h : (summariseDay env S rows op t u).2 = some s) :
    S.found rows (S.within op t u) ≠ [] ∧ s.stream = S.name ∧ s.operatorId = op ∧
      s.rowCount = (S.found rows (S.within op t u)).length ∧
      s.tipHash = S.tip env (beforeTip S rows op t) (S.found rows (S.within op t u)) := by
  by_cases hday : S.found rows (S.within op t u) = []
  · rw [summariseDay_of_nil hday] at h
    cases h
  · obtain ⟨s', heq, hs⟩ := summariseDay_of_ne_nil env hday
    rw [heq] at h
    cases h
    exact ⟨hday, hs⟩

/-- The summary of a day writes hash columns alone, in rows that bear the identifier of a row of the
day. -/
theorem summariseDay_relinked (env : Env) (S : Stream R) (rows : List R) (op : String)
    (t u : Millis) :
    Relinked S (fun r => ∃ d ∈ S.found rows (S.within op t u), S.id r = S.id d) rows
      (summariseDay env S rows op t u).1 := by
  by_cases hday : S.found rows (S.within op t u) = []
  · rw [summariseDay_of_nil hday]
    exact .refl rows
  · obtain ⟨s, heq, -⟩ := summariseDay_of_ne_nil env hday
    rw [heq]
    exact repair_relinked env S _ _ rows

end Summary

/-! ## The table of anchors -/

/-- There is one anchor for each day, stream and operator. -/
def UniqueAnchors (anchors : List AuditAnchor) : Prop :=
  anchors.Pairwise fun a b => a.sameKey b = false

theorem sameKey_comm (a b : AuditAnchor) : a.sameKey b = b.sameKey a := by
  simp only [AuditAnchor.sameKey, eq_comm]

theorem sameKey_trans {a b c : AuditAnchor} (h : a.sameKey b = true) :
    b.sameKey c = a.sameKey c := by
  simp only [AuditAnchor.sameKey, Bool.and_eq_true, decide_eq_true_eq] at h
  simp only [AuditAnchor.sameKey, h]

/-- An anchor that is written stands at the place of the one of its key, or at the end. -/
theorem upsert_cases (anchors : List AuditAnchor) (a : AuditAnchor) :
    (∃ i b, anchors[i]? = some b ∧ a.sameKey b = true ∧ upsert anchors a = anchors.set i a) ∨
      (∀ b ∈ anchors, a.sameKey b = false) ∧ upsert anchors a = anchors ++ [a] := by
  unfold upsert
  cases hfind : anchors.findIdx? a.sameKey with
  | none =>
      right
      refine ⟨?_, rfl⟩
      intro b hb
      simpa using (List.findIdx?_eq_none_iff.mp hfind) b hb
  | some i =>
      left
      obtain ⟨hi, hkey, -⟩ := List.findIdx?_eq_some_iff_getElem.mp hfind
      exact ⟨i, anchors[i], List.getElem?_eq_getElem hi, hkey, rfl⟩

/-- The anchors behind a write: the new one, and those of other keys. -/
theorem mem_upsert {anchors : List AuditAnchor} (h : UniqueAnchors anchors) {a b : AuditAnchor}
    (hb : b ∈ upsert anchors a) : b = a ∨ b ∈ anchors ∧ a.sameKey b = false := by
  rcases upsert_cases anchors a with ⟨i, c, hc, hkey, heq⟩ | ⟨hnone, heq⟩
  · rw [heq] at hb
    obtain ⟨j, hj, hget⟩ := List.getElem_of_mem hb
    rw [List.getElem_set] at hget
    by_cases hij : i = j
    · left
      rw [← hget, if_pos hij]
    · right
      rw [if_neg hij] at hget
      have hj' : j < anchors.length := by simpa using hj
      obtain ⟨hi, hget'⟩ := List.getElem?_eq_some_iff.mp hc
      refine ⟨hget ▸ List.getElem_mem hj', ?_⟩
      -- the anchor of the key stands at one place only
      have hpair := List.pairwise_iff_getElem.mp h
      rw [← sameKey_trans hkey, ← hget, ← hget']
      rcases Nat.lt_or_gt_of_ne hij with hlt | hgt
      · exact hpair i j hi hj' hlt
      · rw [sameKey_comm]
        exact hpair j i hj' hi hgt
  · rw [heq, List.mem_append, List.mem_singleton] at hb
    rcases hb with hb | rfl
    · exact .inr ⟨hb, hnone b hb⟩
    · exact .inl rfl

theorem UniqueAnchors.upsert {anchors : List AuditAnchor} (h : UniqueAnchors anchors)
    (a : AuditAnchor) : UniqueAnchors (upsert anchors a) := by
  rcases upsert_cases anchors a with ⟨i, c, hc, hkey, heq⟩ | ⟨hnone, heq⟩
  · rw [heq]
    obtain ⟨hi, hget⟩ := List.getElem?_eq_some_iff.mp hc
    have hpair := List.pairwise_iff_getElem.mp h
    refine List.pairwise_iff_getElem.mpr ?_
    intro j k hj hk hjk
    have hj' : j < anchors.length := by simpa using hj
    have hk' : k < anchors.length := by simpa using hk
    rw [List.getElem_set, List.getElem_set]
    by_cases hij : i = j
    · rw [if_pos hij, if_neg (by omega), ← sameKey_trans hkey, ← hget]
      exact hpair i k hi hk' (by omega)
    · rw [if_neg hij]
      by_cases hik : i = k
      · rw [if_pos hik, sameKey_comm, ← sameKey_trans hkey, sameKey_comm, ← hget]
        exact hpair j i hj' hi (by omega)
      · rw [if_neg hik]
        exact hpair j k hj' hk' hjk
  · rw [heq]
    refine List.pairwise_append.mpr ⟨h, List.pairwise_singleton _ _, ?_⟩
    intro b hb c hc
    rw [List.mem_singleton.mp hc, sameKey_comm]
    exact hnone b hb

/-- An anchor stays where it is, or is written over by one of its key. -/
theorem getElem?_upsert {anchors : List AuditAnchor} {i : Nat} {b : AuditAnchor}
    (h : anchors[i]? = some b) (a : AuditAnchor) :
    (upsert anchors a)[i]? = some b ∨ a.sameKey b = true ∧ (upsert anchors a)[i]? = some a := by
  obtain ⟨hi, hget⟩ := List.getElem?_eq_some_iff.mp h
  rcases upsert_cases anchors a with ⟨j, c, hc, hkey, heq⟩ | ⟨-, heq⟩
  · rw [heq, List.getElem?_set]
    by_cases hij : j = i
    · right
      subst hij
      rw [h] at hc
      cases hc
      exact ⟨hkey, by simp [hi]⟩
    · left
      rw [if_neg hij]
      exact h
  · left
    rw [heq, List.getElem?_append_left hi]
    exact h

/-! ## The loop over operators -/

/-- What one turn of the loop does: the rows of one stream are repaired, and the summary, if there is
one, is written. -/
theorem record_cases (env : Env) (db : Db) (t : Millis) (tally : Tally) (s : Option AnchorSummary) :
    (record env db t tally s).1 = db ∧
        (s = none ∨ ∃ e, (record env db t tally s).2 = .error e) ∨
      ∃ summary signature, s = some summary ∧ (record env db t tally s).1 =
        { db with auditAnchors := upsert db.auditAnchors (summary.anchor t signature) } := by
  cases s with
  | none => exact .inl ⟨rfl, .inl rfl⟩
  | some s =>
      simp only [record, writeAnchor]
      cases hsign : signManifest env (canonicalJson (.object s.entries)) with
      | error e => exact .inl ⟨rfl, .inr ⟨e, rfl⟩⟩
      | ok signature => exact .inr ⟨s, signature, rfl, rfl⟩

/-- **What every turn of the loop keeps, anchoring a day keeps.** -/
theorem anchorOperators_keeps (env : Env) (t : Millis) {I : Db → Prop} (ops : List String) :
    ∀ (db : Db) (tally : Tally),
      (∀ op ∈ ops, ∀ db tally, I db → I (anchorWalletCalls env db t tally op).1) →
      (∀ op ∈ ops, ∀ db tally, I db → I (anchorRounds env db t tally op).1) →
      I db → I (anchorOperators env t ops db tally).1 := by
  induction ops with
  | nil => exact fun _ _ _ _ h => h
  | cons op ops ih =>
      intro db tally hcalls hrounds h
      have h₁ := hcalls op List.mem_cons_self db tally h
      rw [anchorOperators]
      generalize anchorWalletCalls env db t tally op = first at h₁
      obtain ⟨db', e | tally'⟩ := first
      · exact h₁
      · have h₂ := hrounds op List.mem_cons_self db' tally' h₁
        dsimp only
        generalize anchorRounds env db' t tally' op = second at h₂
        obtain ⟨db'', e | tally''⟩ := second
        · exact h₂
        · exact ih db'' tally'' (fun o ho => hcalls o (List.mem_cons_of_mem op ho))
            (fun o ho => hrounds o (List.mem_cons_of_mem op ho)) h₂

/-- What the turns of one operator bring about, and every turn keeps, holds when the day is
anchored. -/
theorem anchorOperators_brings {env : Env} {t : Millis} {I J : Db → Prop} {op : String}
    (hcalls : ∀ db tally o, I db → I (anchorWalletCalls env db t tally o).1)
    (hrounds : ∀ db tally o, I db → I (anchorRounds env db t tally o).1)
    (hbrings : ∀ db tally db' tally' tally'', I db →
      anchorWalletCalls env db t tally op = (db', .ok tally') →
      (anchorRounds env db' t tally' op).2 = .ok tally'' → J (anchorRounds env db' t tally' op).1)
    (hkeeps : ∀ db tally o, I db → J db → J (anchorWalletCalls env db t tally o).1)
    (hkeeps' : ∀ db tally o, I db → J db → J (anchorRounds env db t tally o).1)
    (ops : List String) : ∀ (db : Db) (tally total : Tally), I db → op ∈ ops →
      (anchorOperators env t ops db tally).2 = .ok total →
      J (anchorOperators env t ops db tally).1 := by
  have hboth : ∀ (ops : List String) (db : Db) (tally : Tally), I db ∧ J db →
      I (anchorOperators env t ops db tally).1 ∧ J (anchorOperators env t ops db tally).1 :=
    fun ops db tally => anchorOperators_keeps env t (I := fun db => I db ∧ J db) ops db tally
      (fun o _ db tally h => ⟨hcalls db tally o h.1, hkeeps db tally o h.1 h.2⟩)
      (fun o _ db tally h => ⟨hrounds db tally o h.1, hkeeps' db tally o h.1 h.2⟩)
  induction ops with
  | nil =>
      intro _ _ _ _ hop
      exact absurd hop List.not_mem_nil
  | cons o ops ih =>
      intro db tally total hI hop hok
      have h₁ := hcalls db tally o hI
      have hb := hbrings db tally
      rw [anchorOperators] at hok ⊢
      by_cases ho : o = op
      · subst ho
        generalize anchorWalletCalls env db t tally o = first at h₁ hok hb
        obtain ⟨db', e | tally'⟩ := first
        · cases hok
        · have h₂ := hrounds db' tally' o h₁
          have hJ := hb db' tally'
          dsimp only at hok ⊢
          generalize anchorRounds env db' t tally' o = second at h₂ hJ hok
          obtain ⟨db'', e | tally''⟩ := second
          · cases hok
          · exact (hboth ops db'' tally'' ⟨h₂, hJ tally'' hI rfl rfl⟩).2
      · have hop' : op ∈ ops := (List.mem_cons.mp hop).resolve_left fun h => ho h.symm
        generalize anchorWalletCalls env db t tally o = first at h₁ hok
        obtain ⟨db', e | tally'⟩ := first
        · cases hok
        · have h₂ := hrounds db' tally' o h₁
          dsimp only at hok ⊢
          generalize anchorRounds env db' t tally' o = second at h₂ hok
          obtain ⟨db'', e | tally''⟩ := second
          · cases hok
          · exact ih db'' tally'' total h₂ hop' hok

/-- A turn of the loop leaves the anchors of other days alone. -/
theorem record_getElem? {env : Env} {db : Db} {t : Millis} {tally : Tally} {s : Option AnchorSummary}
    {i : Nat} {a : AuditAnchor} (h : db.auditAnchors[i]? = some a) (hday : a.periodDate ≠ t) :
    (record env db t tally s).1.auditAnchors[i]? = some a := by
  rcases record_cases env db t tally s with ⟨heq, -⟩ | ⟨summary, signature, -, heq⟩
  · rw [heq]
    exact h
  · rw [heq]
    rcases getElem?_upsert h (summary.anchor t signature) with hget | ⟨hkey, -⟩
    · exact hget
    · simp only [AuditAnchor.sameKey, AnchorSummary.anchor, Bool.and_eq_true] at hkey
      exact absurd (of_decide_eq_true hkey.1.1).symm hday

/-- **Anchoring a day leaves the anchors of other days alone.** -/
theorem anchorDay_getElem? {env : Env} {db : Db} {date : Millis} {i : Nat} {a : AuditAnchor}
    (h : db.auditAnchors[i]? = some a) (hday : a.periodDate ≠ startOfDay date) :
    (anchorDay env db date).1.auditAnchors[i]? = some a :=
  anchorOperators_keeps env (startOfDay date) (I := fun db => db.auditAnchors[i]? = some a) _ db ⟨0, 0⟩
    (fun _ _ _ _ h => record_getElem? h hday) (fun _ _ _ _ h => record_getElem? h hday) h

end YantraRgs.AuditChain
