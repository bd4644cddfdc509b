import YantraRgs.Properties.AnchorStability

/-! # Anchors verify themselves

Anchoring a day starts from the hash of the last row before it, verification from the last hash that
is stored before it. The two walks agree when the last row carries its hash, and come apart when it
carries none although a row before it does.

* **`Chained`** — rows of a day that bear the hashes of a chain; repairing a day chains its rows.
* **`SelfMade`** — the anchors of a day are those of its chained rows.
* **`self_verified_iff`** — when the anchors that anchoring a day wrote are verified by what it left
  behind.
* **`anchored_unverified`** — an anchor that is not. -/

namespace YantraRgs.AuditChain

/-! ## Chained rows -/

section Chained

variable {R : Type} (env : Env) (S : Stream R)

/-- **Every row bears its hash over the hash of the row before it.** -/
def Chained : Option Text → List R → Prop
  | _, [] => True
  | prev, r :: day =>
      S.rowHash r = some (hashRow env prev (S.hashInput r)) ∧
        Chained (some (hashRow env prev (S.hashInput r))) day

/-- The rows of a table that bear the identifiers of a day bear the hashes of its chain. -/
def Bears (rows : List R) : Option Text → List R → Prop
  | _, [] => True
  | prev, d :: day =>
      (∀ r ∈ rows, S.id r = S.id d → S.rowHash r = some (hashRow env prev (S.hashInput d))) ∧
        Bears rows (some (hashRow env prev (S.hashInput d))) day

variable {env S}
variable {rows rows' : List R} {op : String} {t : Millis}

/-- A chain depends on the digest it starts from alone. -/
theorem Chained.congr {start start' : Option Text} (hstart : start.getD [] = start'.getD [])
    {day : List R} (h : Chained env S start day) : Chained env S start' day := by
  cases day with
  | nil => trivial
  | cons r day =>
      have hhash : hashRow env start (S.hashInput r) = hashRow env start' (S.hashInput r) := by
        rw [hashRow_eq, hashRow_eq, hstart]
      rw [Chained, hhash] at h
      exact h

/-- **Replaying a chain finds no mismatch.** -/
theorem Chained.replay {start : Option Text} {day : List R} (h : Chained env S start day) :
    (replay env S start none day).2 = none := by
  induction day generalizing start with
  | nil => rfl
  | cons r day ih =>
      have hsame : ((S.rowHash r).any fun h =>
          h ≠ [] && hashRow env start (S.hashInput r) ≠ h) = false := by
        rw [h.1]
        simp
      rw [AuditChain.replay]
      simp only [hsame, Bool.and_false, Bool.false_eq_true, if_false]
      exact ih h.2

/-- **Repairing a day leaves its rows with the hashes of its chain.** -/
theorem repair_bears (env : Env) (day : List R) : ∀ (prev : Option Text) (rows : List R),
    S.Keyed rows → S.Keyed day → (∀ d ∈ day, d ∈ rows) →
      Bears env S (repair env S prev day rows).1 prev day := by
  induction day with
  | nil => exact fun _ _ _ _ _ => trivial
  | cons d day ih =>
      intro prev rows hkeyed hday hmem
      rw [repair]
      generalize hc : hashRow env prev (S.hashInput d) = computed
      generalize hrows₁ : (if S.rowHash d ≠ some computed ∨ S.prevRowHash d ≠ prev then
        S.update rows (S.id d) fun x => S.link x prev computed else rows) = rows₁
      have hkeyed₁ : S.Keyed rows₁ := by
        rw [← hrows₁]
        split
        · exact hkeyed.relinked (Relinked.update rows (S.id d) prev computed)
        · exact hkeyed
      have hmem₁ : ∀ e ∈ day, e ∈ rows₁ := by
        intro e he
        rw [← hrows₁]
        split
        · exact mem_update_of_batch hday hmem e he
        · exact hmem e (List.mem_cons_of_mem d he)
      rw [Bears, hc]
      refine ⟨?_, ih _ _ hkeyed₁ (List.nodup_cons.mp hday).2 hmem₁⟩
      -- the row is hashed first, and the rest of the day leaves it alone
      obtain ⟨f, hf, hfP, heq⟩ := repair_relinked env S day (some computed) rows₁
      intro x hx hid
      rw [heq] at hx
      obtain ⟨y, hy, rfl⟩ := List.mem_map.mp hx
      have hyid : S.id y = S.id d := (hf.id_eq y).symm.trans hid
      have hfy : f y = y := by
        refine (hfP y hy).resolve_right ?_
        rintro ⟨e, he, hide⟩
        rw [Stream.Keyed, List.map_cons, List.nodup_cons] at hday
        exact hday.1 (List.mem_map.mpr ⟨e, he, hide.symm.trans hyid⟩)
      rw [hfy]
      rw [← hrows₁] at hy
      split at hy
      · obtain ⟨z, hz, rfl⟩ := List.mem_map.mp hy
        have hzid : S.id z = S.id d := by
          split at hyid
          · assumption
          · exact hyid
        rw [if_pos hzid, S.rowHash_link]
      · next hsame =>
          rw [hkeyed.eq hy (hmem d List.mem_cons_self) hyid]
          exact not_not.mp (not_or.mp hsame).1

/-- The rows of a day as a table has them now are chained when the table bears the hashes. -/
theorem Bears.chained {f : R → R} (hf : Relinks S f) {start : Option Text} {day : List R}
    (h : Bears env S rows start day) (hmem : ∀ d ∈ day, f d ∈ rows) :
    Chained env S start (day.map f) := by
  induction day generalizing start with
  | nil => trivial
  | cons d day ih =>
      have hinput : hashRow env start (S.hashInput (f d)) = hashRow env start (S.hashInput d) := by
        rw [hashRow_eq, hashRow_eq, hf.content_eq]
      rw [List.map_cons, Chained, hinput]
      exact ⟨h.1 _ (hmem d List.mem_cons_self) (hf.id_eq d),
        ih h.2 fun e he => hmem e (List.mem_cons_of_mem d he)⟩

end Chained

/-! ## The loop over operators -/

section SelfMade

variable {R : Type} (env : Env) (S : Stream R)

/-- Rows of which only those of a day were hashed. -/
structure Turned (op : String) (t : Millis) (before rows : List R) : Prop where
  keyed : S.Keyed rows
  beforeTip_eq : beforeTip S rows op t = beforeTip S before op t
  seam_eq : seam S rows op t = seam S before op t
  content_eq : (S.found rows (S.within op t (t + dayMs))).map S.content =
    (S.found before (S.within op t (t + dayMs))).map S.content

/-- **The anchors of a day are those of its chained rows.** -/
structure SelfMade (op : String) (t : Millis) (rows : List R) (anchors : List AuditAnchor) :
    Prop where
  chained : Chained env S (beforeTip S rows op t) (S.found rows (S.within op t (t + dayMs)))
  tip_eq : S.found rows (S.within op t (t + dayMs)) ≠ [] → ∀ a ∈ anchors, a.Of S.name op t →
    a.tipHash = S.tip env (beforeTip S rows op t) (S.found rows (S.within op t (t + dayMs)))

variable {env S}
variable {op : String} {t : Millis} {before rows : List R}

theorem Turned.refl (h : S.Keyed rows) : Turned S op t rows rows := ⟨h, rfl, rfl, rfl⟩

/-- A turn of the loop hashes rows of the day alone. -/
theorem Turned.turn (h : Turned S op t before rows) (env : Env) (o : String) :
    Turned S op t before (summariseDay env S rows o t (t + dayMs)).1 := by
  have hrows := summariseDay_within env h.keyed o t (t + dayMs)
  obtain ⟨htip, hseam⟩ := before_of_relinked op (Nat.le_refl t) hrows
  exact ⟨h.keyed.relinked hrows, htip.trans h.beforeTip_eq, hseam.trans h.seam_eq,
    (hrows.map_content op t (t + dayMs)).trans h.content_eq⟩

/-- The turn of an operator chains the rows of its day. -/
theorem summariseDay_chained (env : Env) (hkeyed : S.Keyed rows) (op : String) (t : Millis) :
    Chained env S (beforeTip S rows op t)
      (S.found (summariseDay env S rows op t (t + dayMs)).1 (S.within op t (t + dayMs))) := by
  obtain ⟨f, hf, -, heq⟩ := summariseDay_within env hkeyed op t (t + dayMs)
  have hwithin : (fun r => S.within op t (t + dayMs) (f r)) = S.within op t (t + dayMs) :=
    funext fun r => within_congr (hf.operatorId_eq r) (hf.stamp_eq r) op t (t + dayMs)
  by_cases hday : S.found rows (S.within op t (t + dayMs)) = []
  · rw [summariseDay_of_nil hday, hday]
    trivial
  · obtain ⟨s, hsummary, -⟩ := summariseDay_of_ne_nil env hday
    have hbears := repair_bears env (S.found rows (S.within op t (t + dayMs)))
      (beforeTip S rows op t) rows hkeyed (hkeyed.found _) fun d hd => (mem_found.mp hd).1
    rw [hsummary] at heq
    rw [hsummary, heq, found_map hf.id_eq hf.stamp_eq, hwithin]
    refine hbears.chained hf ?_
    intro d hd
    rw [heq]
    exact List.mem_map_of_mem (mem_found.mp hd).1

/-- The turn of another operator leaves the day alone. -/
theorem found_turn (env : Env) (hkeyed : S.Keyed rows) {o : String} (ho : o ≠ op) (t : Millis) :
    S.found (summariseDay env S rows o t (t + dayMs)).1 (S.within op t (t + dayMs)) =
      S.found rows (S.within op t (t + dayMs)) := by
  have hother : ∀ r ∈ rows, S.within o t (t + dayMs) r = true → S.operatorId r ≠ op := by
    intro r _ hwithin hop
    exact ho ((operatorId_of_within hwithin).symm.trans hop)
  exact (summariseDay_within env hkeyed o t (t + dayMs)).found_eq hother fun r hr =>
    operatorId_of_within hr

section Record

variable {db : Db} {anchors : List AuditAnchor} {o : String} (hdb : db.auditAnchors = anchors)

/-- What a turn of the loop leaves behind is self-made when its anchors are those of the rows before
it, and the turn of the operator chains the rows. -/
theorem SelfMade.of_tip (hkeyed : S.Keyed rows)
    (hchained : o ≠ op →
      Chained env S (beforeTip S rows op t) (S.found rows (S.within op t (t + dayMs))))
    (htips : S.found rows (S.within op t (t + dayMs)) ≠ [] → ∀ a ∈ anchors, a.Of S.name op t →
      a.tipHash = S.tip env (beforeTip S rows op t) (S.found rows (S.within op t (t + dayMs)))) :
    SelfMade env S op t (summariseDay env S rows o t (t + dayMs)).1 anchors := by
  have hrows := summariseDay_within env hkeyed o t (t + dayMs)
  have htip := (before_of_relinked op (Nat.le_refl t) hrows).1
  have hcontent := hrows.map_content op t (t + dayMs)
  constructor
  · rw [htip]
    by_cases ho : o = op
    · subst ho
      exact summariseDay_chained env hkeyed o t
    · rw [found_turn env hkeyed ho t]
      exact hchained ho
  · intro hne a ha hof
    have hsame : S.tip env _ _ = S.tip env _ _ :=
      S.tip_congr (congrArg (Option.getD · []) htip) hcontent
    rw [hsame]
    refine htips ?_ a ha hof
    intro hnil
    rw [hnil, List.map_nil] at hcontent
    exact hne (List.map_eq_nil_iff.mp hcontent)

include hdb

/-- Every turn of the loop over a stream keeps its chained rows and their anchors. -/
theorem SelfMade.turn (h : SelfMade env S op t rows anchors) (hkeyed : S.Keyed rows)
    (hunique : UniqueAnchors anchors) (tally : Tally) (o : String) :
    SelfMade env S op t (summariseDay env S rows o t (t + dayMs)).1
      (record env db t tally (summariseDay env S rows o t (t + dayMs)).2).1.auditAnchors := by
  subst hdb
  refine .of_tip hkeyed (fun _ => h.chained) ?_
  intro hne a ha hof
  rcases record_cases env db t tally (summariseDay env S rows o t (t + dayMs)).2 with
    ⟨heq, -⟩ | ⟨s, signature, hs, heq⟩
  · rw [heq] at ha
    exact h.tip_eq hne a ha hof
  · rw [heq] at ha
    rcases mem_upsert hunique ha with rfl | ⟨ha, -⟩
    · -- the anchor is written from the rows of the day
      obtain ⟨-, -, hoperator, -, hmade⟩ := summariseDay_some hs
      obtain rfl : o = op := hoperator.symm.trans (Option.some.inj hof.operatorId)
      exact hmade
    · exact h.tip_eq hne a ha hof

/-- **The turn of an operator writes the anchor of its chained rows.** -/
theorem SelfMade.brought (hkeyed : S.Keyed rows) (hunique : UniqueAnchors anchors)
    {tally tally' : Tally}
    (hok : (record env db t tally (summariseDay env S rows op t (t + dayMs)).2).2 = .ok tally') :
    SelfMade env S op t (summariseDay env S rows op t (t + dayMs)).1
      (record env db t tally (summariseDay env S rows op t (t + dayMs)).2).1.auditAnchors := by
  subst hdb
  refine .of_tip hkeyed (fun h => absurd rfl h) ?_
  intro hne a ha hof
  rcases record_cases env db t tally (summariseDay env S rows op t (t + dayMs)).2 with
    ⟨-, hnone | ⟨e, herror⟩⟩ | ⟨s, signature, hs, heq⟩
  · obtain ⟨s, hs, -⟩ := summariseDay_of_ne_nil env hne
    rw [hs] at hnone
    cases hnone
  · rw [herror] at hok
    cases hok
  · obtain ⟨-, hname, hoperator, -, hmade⟩ := summariseDay_some hs
    rw [heq] at ha
    rcases mem_upsert hunique ha with rfl | ⟨-, hkey⟩
    · exact hmade
    · simp only [AuditAnchor.sameKey, AnchorSummary.anchor, hname, hoperator, hof.streamName,
        hof.operatorId, hof.periodDate] at hkey
      exact absurd hkey (by simp)

/-- Anchors of another stream change nothing. -/
theorem SelfMade.other (h : SelfMade env S op t rows anchors)
    (hunique : UniqueAnchors anchors) (tally : Tally) {s : Option AnchorSummary}
    (hs : ∀ summary ∈ s, summary.stream ≠ S.name) :
    SelfMade env S op t rows (record env db t tally s).1.auditAnchors := by
  subst hdb
  refine ⟨h.chained, fun hne a ha hof => ?_⟩
  rcases record_cases env db t tally s with ⟨heq, -⟩ | ⟨summary, signature, hsummary, heq⟩
  · rw [heq] at ha
    exact h.tip_eq hne a ha hof
  · rw [heq] at ha
    rcases mem_upsert hunique ha with rfl | ⟨ha, -⟩
    · exact absurd hof.streamName (hs summary hsummary)
    · exact h.tip_eq hne a ha hof

/-- A turn of the loop keeps one anchor for each key. -/
theorem UniqueAnchors.record (h : UniqueAnchors anchors) (tally : Tally)
    (s : Option AnchorSummary) : UniqueAnchors (record env db t tally s).1.auditAnchors := by
  subst hdb
  rcases record_cases env db t tally s with ⟨heq, -⟩ | ⟨summary, signature, -, heq⟩
  · rw [heq]
    exact h
  · rw [heq]
    exact h.upsert _

end Record

end SelfMade

/-! ## Both streams -/

section Making

variable {R : Type} (S : Stream R)

/-- The loop over operators: rows of the day were hashed, and there is one anchor for each key. -/
structure Making (op : String) (t : Millis) (before rows : List R) (anchors : List AuditAnchor) :
    Prop where
  turned : Turned S op t before rows
  unique : UniqueAnchors anchors

variable {env : Env} {S}
variable {op : String} {t : Millis} {before rows : List R}
variable {db : Db} {anchors : List AuditAnchor} (hdb : db.auditAnchors = anchors)

include hdb

/-- A turn over the stream itself. -/
theorem Making.own (h : Making S op t before rows anchors) (tally : Tally) (o : String) :
    Making S op t before (summariseDay env S rows o t (t + dayMs)).1
      (record env db t tally (summariseDay env S rows o t (t + dayMs)).2).1.auditAnchors :=
  ⟨h.turned.turn env o, h.unique.record hdb tally _⟩

/-- A turn over the other stream. -/
theorem Making.other (h : Making S op t before rows anchors) (tally : Tally)
    (s : Option AnchorSummary) :
    Making S op t before rows (record env db t tally s).1.auditAnchors :=
  ⟨h.turned, h.unique.record hdb tally s⟩

end Making

section Day

variable {env : Env} {db : Db} {date : Millis} {tally : Tally} {op : String}

theorem walletCalls_anchorWalletCalls (env : Env) (db : Db) (t : Millis) (tally : Tally)
    (o : String) : (anchorWalletCalls env db t tally o).1.walletCalls =
      (summariseDay env walletCalls db.walletCalls o t (t + dayMs)).1 := by
  rw [anchorWalletCalls, (record_rows _ _ _ _ _).1]
  rfl

theorem walletCalls_anchorRounds (env : Env) (db : Db) (t : Millis) (tally : Tally) (o : String) :
    (anchorRounds env db t tally o).1.walletCalls = db.walletCalls := by
  rw [anchorRounds, (record_rows _ _ _ _ _).1]

theorem rounds_anchorWalletCalls (env : Env) (db : Db) (t : Millis) (tally : Tally) (o : String) :
    (anchorWalletCalls env db t tally o).1.rounds = db.rounds := by
  rw [anchorWalletCalls, (record_rows _ _ _ _ _).2.1]

theorem rounds_anchorRounds (env : Env) (db : Db) (t : Millis) (tally : Tally) (o : String) :
    (anchorRounds env db t tally o).1.rounds =
      (summariseDay env rounds db.rounds o t (t + dayMs)).1 := by
  rw [anchorRounds, (record_rows _ _ _ _ _).2.1]
  rfl

/-- A summary of wallet calls is none of rounds. -/
theorem stream_walletCalls {rows : List WalletCallRow} {o : String} {t u : Millis} :
    ∀ s ∈ (summariseWalletCallDay env rows o t u).2, s.stream ≠ rounds.name := by
  intro s hs
  rw [(summariseDay_some hs).2.1]
  decide

theorem stream_rounds {rows : List RoundRow} {o : String} {t u : Millis} :
    ∀ s ∈ (summariseRoundDay env rows o t u).2, s.stream ≠ walletCalls.name := by
  intro s hs
  rw [(summariseDay_some hs).2.1]
  decide

/-- **The wallet calls of an operator when their day is anchored.** -/
theorem anchorDay_calls (hkeyed : walletCalls.Keyed db.walletCalls)
    (hunique : UniqueAnchors db.auditAnchors) (hop : op ∈ db.operators)
    (hok : (anchorDay env db date).2 = .ok tally) :
    Turned walletCalls op (startOfDay date) db.walletCalls (anchorDay env db date).1.walletCalls ∧
      SelfMade env walletCalls op (startOfDay date) (anchorDay env db date).1.walletCalls
        (anchorDay env db date).1.auditAnchors := by
  let I : Db → Prop := fun next =>
    Making walletCalls op (startOfDay date) db.walletCalls next.walletCalls next.auditAnchors
  let J : Db → Prop := fun next =>
    SelfMade env walletCalls op (startOfDay date) next.walletCalls next.auditAnchors
  have hI : I db := ⟨.refl hkeyed, hunique⟩
  have hcalls : ∀ next tally o, I next →
      I (anchorWalletCalls env next (startOfDay date) tally o).1 := by
    intro next tally o h
    change Making _ _ _ _ _ _
    rw [walletCalls_anchorWalletCalls]
    exact h.own (by rfl) tally o
  have hrounds : ∀ next tally o, I next →
      I (anchorRounds env next (startOfDay date) tally o).1 := by
    intro next tally o h
    change Making _ _ _ _ _ _
    rw [walletCalls_anchorRounds]
    exact h.other (by rfl) tally _
  have hkeeps' : ∀ next tally o, I next → J next →
      J (anchorRounds env next (startOfDay date) tally o).1 := by
    intro next tally o h hself
    change SelfMade _ _ _ _ _ _
    rw [walletCalls_anchorRounds]
    exact SelfMade.other (by rfl) hself h.unique tally stream_rounds
  constructor
  · exact (anchorOperators_keeps env (startOfDay date) (I := I) db.operators db ⟨0, 0⟩
      (fun o _ next tally h => hcalls next tally o h)
      (fun o _ next tally h => hrounds next tally o h) hI).turned
  · refine anchorOperators_brings (I := I) (J := J) hcalls hrounds ?_ ?_ hkeeps' db.operators db
      ⟨0, 0⟩ tally hI hop hok
    · intro next tally₁ next' tally₂ _ h hturn _
      have hself : J (anchorWalletCalls env next (startOfDay date) tally₁ op).1 := by
        change SelfMade _ _ _ _ _ _
        rw [walletCalls_anchorWalletCalls]
        exact SelfMade.brought (by rfl) h.turned.keyed h.unique (congrArg Prod.snd hturn)
      have hnext := hcalls next tally₁ op h
      rw [hturn] at hself hnext
      exact hkeeps' next' tally₂ op hnext hself
    · intro next tally o h hself
      change SelfMade _ _ _ _ _ _
      rw [walletCalls_anchorWalletCalls]
      exact SelfMade.turn (by rfl) hself h.turned.keyed h.unique tally o

/-- **The rounds of an operator when their day is anchored.** -/
theorem anchorDay_rounds (hkeyed : rounds.Keyed db.rounds)
    (hunique : UniqueAnchors db.auditAnchors) (hop : op ∈ db.operators)
    (hok : (anchorDay env db date).2 = .ok tally) :
    Turned rounds op (startOfDay date) db.rounds (anchorDay env db date).1.rounds ∧
      SelfMade env rounds op (startOfDay date) (anchorDay env db date).1.rounds
        (anchorDay env db date).1.auditAnchors := by
  let I : Db → Prop := fun next =>
    Making rounds op (startOfDay date) db.rounds next.rounds next.auditAnchors
  let J : Db → Prop := fun next =>
    SelfMade env rounds op (startOfDay date) next.rounds next.auditAnchors
  have hI : I db := ⟨.refl hkeyed, hunique⟩
  have hcalls : ∀ next tally o, I next →
      I (anchorWalletCalls env next (startOfDay date) tally o).1 := by
    intro next tally o h
    change Making _ _ _ _ _ _
    rw [rounds_anchorWalletCalls]
    exact h.other (by rfl) tally _
  have hrounds : ∀ next tally o, I next →
      I (anchorRounds env next (startOfDay date) tally o).1 := by
    intro next tally o h
    change Making _ _ _ _ _ _
    rw [rounds_anchorRounds]
    exact h.own (by rfl) tally o
  constructor
  · exact (anchorOperators_keeps env (startOfDay date) (I := I) db.operators db ⟨0, 0⟩
      (fun o _ next tally h => hcalls next tally o h)
      (fun o _ next tally h => hrounds next tally o h) hI).turned
  · refine anchorOperators_brings (I := I) (J := J) hcalls hrounds ?_ ?_ ?_ db.operators db
      ⟨0, 0⟩ tally hI hop hok
    · intro next tally₁ next' tally₂ _ h hturn hdone
      have hnext := hcalls next tally₁ op h
      rw [hturn] at hnext
      change SelfMade _ _ _ _ _ _
      rw [rounds_anchorRounds]
      exact SelfMade.brought (by rfl) hnext.turned.keyed hnext.unique hdone
    · intro next tally o h hself
      change SelfMade _ _ _ _ _ _
      rw [rounds_anchorWalletCalls]
      exact SelfMade.other (by rfl) hself h.unique tally stream_walletCalls
    · intro next tally o h hself
      change SelfMade _ _ _ _ _ _
      rw [rounds_anchorRounds]
      exact SelfMade.turn (by rfl) hself h.turned.keyed h.unique tally o

end Day

/-! ## Verification -/

/-- **Both walks over a day start alike**: the last row before it carries its hash, or no row before it
carries one that is not empty. -/
def SeamStands {R : Type} (S : Stream R) (rows : List R) (op : String) (t : Millis) : Prop :=
  SparesBackfill S rows op t ∨ (seam S rows op t).getD [] = []

/-- The hash of the last row before a day is the last one that is stored, or there is none. -/
theorem seamStands_iff {R : Type} (S : Stream R) (rows : List R) (op : String) (t : Millis) :
    SeamStands S rows op t ↔ (beforeTip S rows op t).getD [] = (seam S rows op t).getD [] := by
  rw [SeamStands, SparesBackfill, beforeTip, seam_eq_getLast?]
  rcases List.eq_nil_or_concat' (S.found rows (S.earlier op t)) with hnil | ⟨l, r, hl⟩
  · rw [hnil]
    simp
  · rw [hl]
    cases hr : S.rowHash r with
    | none =>
        have hno : S.hashed r = false := by
          rw [Stream.hashed, hr]
          rfl
        rw [eq_comm (b := ((l ++ [r]).filterMap S.rowHash).getLast?.getD [])]
        simp [hr, hno]
    | some h =>
        have hyes : S.hashed r = true := by
          rw [Stream.hashed, hr]
          rfl
        simp [hr, hyes]

/-- **A self-made anchor is verified exactly when both walks start alike.** -/
theorem SelfMade.verified_iff {R : Type} {env : Env} {S : Stream R} {op : String} {t : Millis}
    {before rows : List R} {anchors : List AuditAnchor} (hsha : Function.Injective env.sha256)
    (h : SelfMade env S op t rows anchors) (hturned : Turned S op t before rows)
    (hne : S.found before (S.within op t (t + dayMs)) ≠ []) {a : AuditAnchor} (ha : a ∈ anchors)
    (hof : a.Of S.name op t) (name : String) :
    ((verifyStream env S rows name op a).verified = true ∧
        (verifyStream env S rows name op a).firstMismatchAtRowId = none) ↔
      SeamStands S before op t := by
  have hne' : S.found rows (S.within op t (t + dayMs)) ≠ [] := by
    intro hnil
    have hcontent := hturned.content_eq
    rw [hnil, List.map_nil] at hcontent
    exact hne (List.map_eq_nil_iff.mp hcontent.symm)
  rw [verifyStream_verified, hof.periodDate, h.tip_eq hne' a ha hof, seamStands_iff,
    ← hturned.seam_eq, ← hturned.beforeTip_eq]
  constructor
  · rintro ⟨htip, -⟩
    exact (HashChain.foldl_inj (binding hsha) rfl htip).1.symm
  · intro hstart
    refine ⟨S.tip_congr hstart.symm rfl, ?_⟩
    have hreplay := (h.chained.congr hstart).replay
    rw [← hof.periodDate] at hreplay
    exact hreplay

/-- **An anchor that anchoring a day writes**: that of an operator with rows on the day. -/
def AuditAnchor.WrittenOn (a : AuditAnchor) (db : Db) (date : Millis) : Prop :=
  a.periodDate = startOfDay date ∧ ∃ op ∈ db.operators, a.operatorId = some op ∧
    (a.streamName = "wallet_call" ∧ walletCalls.found db.walletCalls
        (walletCalls.within op (startOfDay date) (startOfDay date + dayMs)) ≠ [] ∨
      a.streamName = "round" ∧ rounds.found db.rounds
        (rounds.within op (startOfDay date) (startOfDay date + dayMs)) ≠ [])

/-- The rows before an anchored day let verification start where anchoring started. -/
def AuditAnchor.SeamStands (a : AuditAnchor) (db : Db) : Prop :=
  if a.streamName = "wallet_call" then
    AuditChain.SeamStands walletCalls db.walletCalls (a.operatorId.getD "") a.periodDate
  else AuditChain.SeamStands rounds db.rounds (a.operatorId.getD "") a.periodDate

/-- The tables as the schema keeps them: identifiers tell rows apart, and there is one anchor for each
day, stream and operator. -/
structure Db.Keyed (db : Db) : Prop where
  walletCalls : AuditChain.walletCalls.Keyed db.walletCalls
  rounds : AuditChain.rounds.Keyed db.rounds
  auditAnchors : UniqueAnchors db.auditAnchors

/-- **Anchoring verifies itself exactly where the rows before the day let it**: an anchor that was just
written is verified, without a mismatch, exactly when both walks start alike. -/
theorem self_verified_iff {env : Env} (hsha : Function.Injective env.sha256) {db : Db}
    (hkeyed : db.Keyed) {date : Millis} {tally : Tally}
    (hok : (anchorDay env db date).2 = .ok tally) {id : Nat} {a : AuditAnchor}
    (ha : (anchorDay env db date).1.auditAnchors[id]? = some a) (hwritten : a.WrittenOn db date) :
    (∃ r, verifyAnchor env (anchorDay env db date).1 id = some r ∧ r.verified = true ∧
        r.firstMismatchAtRowId = none) ↔ a.SeamStands db := by
  obtain ⟨hperiod, op, hop, hoperator, hstream⟩ := hwritten
  rcases hstream with ⟨hname, hne⟩ | ⟨hname, hne⟩
  · obtain ⟨hturned, hself⟩ := anchorDay_calls hkeyed.walletCalls hkeyed.auditAnchors hop hok
    rw [AuditAnchor.SeamStands, if_pos hname, hoperator, Option.getD_some, hperiod,
      ← hself.verified_iff hsha hturned hne (List.mem_of_getElem? ha) ⟨hname, hoperator, hperiod⟩
        a.streamName]
    simp only [verifyAnchor, ha, hoperator, hname, if_true, Option.some.injEq, exists_eq_left']
  · obtain ⟨hturned, hself⟩ := anchorDay_rounds hkeyed.rounds hkeyed.auditAnchors hop hok
    have hother : ¬ a.streamName = "wallet_call" := by
      rw [hname]
      decide
    rw [AuditAnchor.SeamStands, if_neg hother, hoperator, Option.getD_some, hperiod,
      ← hself.verified_iff hsha hturned hne (List.mem_of_getElem? ha) ⟨hname, hoperator, hperiod⟩
        a.streamName]
    simp only [verifyAnchor, ha, hoperator, hother, if_false, Option.some.injEq, exists_eq_left']

/-- The second day of a ledger whose first day was anchored is anchored, and verified. -/
theorem self_verified_twoDays : ∃ r, verifyAnchor Sample.env Sample.twoDays 1 = some r ∧
    r.verified = true ∧ r.firstMismatchAtRowId = none := by
  have hany : Sample.twoDays.auditAnchors[1]?.any (fun a => a.periodDate = dayMs &&
      a.operatorId = some "operator" && a.streamName = "wallet_call") = true := by decide +kernel
  obtain ⟨a, ha, hkey⟩ := (Option.any_eq_true _ _).mp hany
  simp only [Bool.and_eq_true, decide_eq_true_eq] at hkey
  have hkeyed : Sample.oneDay.Keyed := by
    refine ⟨?_, List.nodup_nil, ?_⟩
    · unfold Stream.Keyed
      decide +kernel
    · unfold UniqueAnchors
      decide +kernel
  have hok : (anchorDay Sample.env Sample.oneDay dayMs).2 = .ok ⟨1, 1⟩ := by decide +kernel
  refine (self_verified_iff Sample.env_injective hkeyed hok ha
    ⟨hkey.1.1, "operator", List.mem_singleton.mpr (by rfl), hkey.1.2, .inl ⟨hkey.2, ?_⟩⟩).mpr ?_
  · exact List.ne_nil_of_length_pos (by decide +kernel)
  · rw [AuditAnchor.SeamStands, if_pos hkey.2, hkey.1.2, hkey.1.1, seamStands_iff]
    decide +kernel

/-! ## A row that was never hashed -/

namespace Sample

/-- A call that bears its hash, one of the same day whose hash could not be written, and one of the
next day. -/
def unhashed : Db where
  operators := ["operator"]
  walletCalls := [{ call "a" 1000 with rowHash := some ['#'] }, call "b" 2000, call "c" 86401000]
  rounds := []
  auditAnchors := []

theorem unhashed_keyed : unhashed.Keyed where
  walletCalls := by
    unfold Stream.Keyed
    decide
  rounds := List.nodup_nil
  auditAnchors := List.Pairwise.nil

/-- The second day is anchored. -/
theorem unhashed_anchored : (anchorDay env unhashed 86405000).2 = .ok ⟨1, 1⟩ := by decide +kernel

/-- The anchor that is written. -/
theorem unhashed_written : ∃ a, (anchorDay env unhashed 86405000).1.auditAnchors[0]? = some a ∧
    a.WrittenOn unhashed 86405000 := by
  have hany : (anchorDay env unhashed 86405000).1.auditAnchors[0]?.any (fun a =>
      a.periodDate = startOfDay 86405000 && a.operatorId = some "operator" &&
        a.streamName = "wallet_call") = true := by decide +kernel
  obtain ⟨a, ha, hkey⟩ := (Option.any_eq_true _ _).mp hany
  simp only [Bool.and_eq_true, decide_eq_true_eq] at hkey
  exact ⟨a, ha, hkey.1.1, "operator", List.mem_singleton.mpr rfl, hkey.1.2,
    .inl ⟨hkey.2, List.ne_nil_of_length_pos (by decide +kernel)⟩⟩

end Sample

/-- **An anchor that is not verified by what it was written from.** -/
theorem anchored_unverified : ¬ ∀ (env : Env), Function.Injective env.sha256 →
    ∀ (db : Db), db.Keyed → ∀ (date : Millis) (tally : Tally),
      (anchorDay env db date).2 = .ok tally → ∀ (id : Nat) (a : AuditAnchor),
        (anchorDay env db date).1.auditAnchors[id]? = some a → a.WrittenOn db date →
          ∃ r, verifyAnchor env (anchorDay env db date).1 id = some r ∧ r.verified = true ∧
            r.firstMismatchAtRowId = none := by
  intro h
  obtain ⟨a, ha, hwritten⟩ := Sample.unhashed_written
  obtain ⟨r, hr, hverified, -⟩ := h Sample.env Sample.env_injective Sample.unhashed
    Sample.unhashed_keyed 86405000 ⟨1, 1⟩ Sample.unhashed_anchored 0 a ha hwritten
  have hany : (verifyAnchor Sample.env (anchorDay Sample.env Sample.unhashed 86405000).1 0).any
      (·.verified) = false := by decide +kernel
  rw [hr, Option.any_some, hverified] at hany
  exact Bool.noConfusion hany

end YantraRgs.AuditChain
