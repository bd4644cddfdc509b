import YantraRgs.Audit.Seam

/-! # The chain writes hashes

Backfilling hashes rows that had none, and anchoring a day hashes the rows of the day again. Which
rows that are, and which hash the last of them is left with, decides whether a verification reads
the change.

* **`backfillChain_relinked`**, **`summariseDay_within`** — the rows that are hashed.
* **`repair_hash`** — the last row of a day is left with the tip of the day.
* **`Rehashed`**, **`unseen_rehash`** — an earlier day is hashed again unread when the row that
  carries the seam already has the tip of its day. -/

namespace YantraRgs.AuditChain

variable {R : Type} {env : Env} {S : Stream R}
variable {op : String} {t : Millis} {rows rows' : List R}

/-! ## Which rows are hashed -/

/-- A row with another identifier stays in the table. -/
theorem mem_update_of_ne {id : String} {f : R → R} {r : R} (hr : r ∈ rows) (hid : S.id r ≠ id) :
    r ∈ S.update rows id f :=
  List.mem_map.mpr ⟨r, hr, if_neg hid⟩

/-- The rows of a batch behind the first one are still there when that one was hashed. -/
theorem mem_update_of_batch {d : R} {batch : List R} {f : R → R} (hbatch : S.Keyed (d :: batch))
    (hmem : ∀ e ∈ d :: batch, e ∈ rows) : ∀ e ∈ batch, e ∈ S.update rows (S.id d) f := by
  intro e he
  refine mem_update_of_ne (hmem e (List.mem_cons_of_mem d he)) ?_
  intro hid
  rw [Stream.Keyed, List.map_cons, List.nodup_cons] at hbatch
  exact hbatch.1 (List.mem_map.mpr ⟨e, he, hid⟩)

/-- A batch hashes its rows. -/
theorem backfillBatch_relinked (env : Env) {P : R → Prop} (batch : List R) :
    ∀ (prev : Option Text) (rows : List R), S.Keyed rows → S.Keyed batch →
      (∀ d ∈ batch, d ∈ rows) → (∀ d ∈ batch, P d) →
      Relinked S P rows (backfillBatch env S prev batch rows).1 := by
  induction batch with
  | nil => exact fun _ rows _ _ _ _ => .refl rows
  | cons d batch ih =>
      intro prev rows hkeyed hbatch hmem hP
      rw [backfillBatch]
      have hfirst : Relinked S P rows
          (S.update rows (S.id d) fun r => S.link r prev (hashRow env prev (S.hashInput d))) := by
        refine (Relinked.update rows (S.id d) prev _).mono ?_
        intro r hr hid
        rw [hkeyed.eq hr (hmem d List.mem_cons_self) hid]
        exact hP d List.mem_cons_self
      refine hfirst.trans (ih _ _ (hkeyed.relinked hfirst) ?_ (mem_update_of_batch hbatch hmem) ?_)
      · exact (List.nodup_cons.mp hbatch).2
      · exact fun e he => hP e (List.mem_cons_of_mem d he)

/-- **Backfilling hashes rows of its operator that had no hash.** -/
theorem backfillChain_relinked (env : Env) (hkeyed : S.Keyed rows) (op : String) :
    Relinked S (fun r => S.operatorId r = op ∧ S.hashed r = false) rows
      (backfillChain env S rows op).1 := by
  have hloop : ∀ (n : Nat) (prev : Option Text) (rows : List R) (total : Nat), S.Keyed rows →
      Relinked S (fun r => S.operatorId r = op ∧ S.hashed r = false) rows
        (backfillLoop env S op n prev rows total).1 := by
    intro n
    induction n with
    | zero => exact fun _ rows _ _ => .refl rows
    | succ n ih =>
        intro prev rows total hkeyed
        rw [backfillLoop]
        dsimp only
        split
        · exact .refl rows
        · have hmem : ∀ d ∈ (S.found rows fun r => S.operatorId r = op && !S.hashed r).take 500,
              d ∈ rows ∧ S.operatorId d = op ∧ S.hashed d = false := by
            intro d hd
            obtain ⟨hrow, hcond⟩ := mem_found.mp (List.mem_of_mem_take hd)
            simp only [Bool.and_eq_true, decide_eq_true_eq, Bool.not_eq_true'] at hcond
            exact ⟨hrow, hcond⟩
          have hbatch := backfillBatch_relinked env _ prev rows hkeyed
            ((hkeyed.found fun r => S.operatorId r = op && !S.hashed r).sublist
              ((List.take_sublist 500 _).map S.id))
            (fun d hd => (hmem d hd).1) (fun d hd => (hmem d hd).2)
          exact hbatch.trans (ih _ _ _ (hkeyed.relinked hbatch))
  exact hloop _ _ rows 0 hkeyed

/-- **Anchoring a day hashes the rows of the day.** -/
theorem summariseDay_within (env : Env) (hkeyed : S.Keyed rows) (op : String) (t u : Millis) :
    Relinked S (fun r => S.within op t u r = true) rows (summariseDay env S rows op t u).1 := by
  refine (summariseDay_relinked env S rows op t u).mono ?_
  rintro r hr ⟨d, hd, hid⟩
  obtain ⟨hdrows, hday⟩ := mem_found.mp hd
  rw [hkeyed.eq hr hdrows hid]
  exact hday

/-- A row created before a day is none of a later one. -/
theorem within_of_earlier {r : R} {t' u : Millis} (h : S.earlier op t r = true) (ht : t ≤ t')
    (o : String) : S.within o t' u r = false := by
  by_contra hwithin
  simp only [Stream.within, Stream.earlier, Bool.and_eq_true, Bool.not_eq_false] at h hwithin
  obtain ⟨s, hs, hlt⟩ := (Option.any_eq_true _ _).mp h.2
  obtain ⟨s', hs', hle⟩ := (Option.any_eq_true _ _).mp hwithin.2
  rw [hs] at hs'
  cases hs'
  simp only [Bool.and_eq_true, decide_eq_true_eq] at hlt hle
  exact absurd (Nat.lt_of_lt_of_le hlt (Nat.le_trans ht hle.1)) (Nat.lt_irrefl s)

/-- A row of a day was created before the days after it. -/
theorem earlier_of_within {r : R} {t' u : Millis} (h : S.within op t' u r = true) (hu : u ≤ t) :
    S.earlier op t r = true := by
  simp only [Stream.within, Stream.earlier, Bool.and_eq_true] at h ⊢
  refine ⟨h.1, ?_⟩
  obtain ⟨s, hs, hle⟩ := (Option.any_eq_true _ _).mp h.2
  simp only [Bool.and_eq_true, decide_eq_true_eq] at hle
  rw [hs, Option.any_some]
  exact decide_eq_true (Nat.lt_of_lt_of_le hle.2 hu)

/-! ## Which hash the last row is left with -/

/-- **The last row of a day is left with the tip of the day.** -/
theorem repair_hash (env : Env) (day : List R) : ∀ (prev : Option Text) (rows : List R), S.Keyed rows →
    S.Keyed day → (∀ d ∈ day, d ∈ rows) →
      ∀ x ∈ (repair env S prev day rows).1, ∀ d ∈ day.getLast?, S.id x = S.id d →
        S.rowHash x = some (S.tip env prev day) := by
  induction day with
  | nil => exact fun _ _ _ _ _ _ _ d hd => absurd hd (by simp)
  | cons d day ih =>
      intro prev rows hkeyed hday hmem
      rw [repair, S.tip_cons]
      generalize hc : hashRow env prev (S.hashInput d) = computed
      generalize hrows₁ : (if S.rowHash d ≠ some computed ∨ S.prevRowHash d ≠ prev then
        S.update rows (S.id d) fun x => S.link x prev computed else rows) = rows₁
      have hkeyed₁ : S.Keyed rows₁ := by
        rw [← hrows₁]
        split
        · exact hkeyed.relinked (Relinked.update rows (S.id d) prev computed)
        · exact hkeyed
      cases day with
      | nil =>
          intro x hx e he hid
          rw [List.getLast?_singleton, Option.mem_some_iff] at he
          subst he
          change x ∈ rows₁ at hx
          change S.rowHash x = some ((some computed).getD [])
          rw [← hrows₁] at hx
          split at hx
          · obtain ⟨y, hy, rfl⟩ := List.mem_map.mp hx
            have hyid : S.id y = S.id d := by
              split at hid
              · assumption
              · exact hid
            rw [if_pos hyid, S.rowHash_link]
            rfl
          · next hsame =>
              rw [hkeyed.eq hx (hmem d List.mem_cons_self) hid]
              exact not_not.mp (not_or.mp hsame).1
      | cons e day =>
          refine ih (some computed) rows₁ hkeyed₁ (List.nodup_cons.mp hday).2 ?_
          intro y hy
          rw [← hrows₁]
          split
          · exact mem_update_of_batch hday hmem y hy
          · exact hmem y (List.mem_cons_of_mem d hy)

/-! ## Hashing an earlier day again -/

/-- The tip that anchoring a day computes. -/
def dayTip (env : Env) (S : Stream R) (rows : List R) (op : String) (t' : Millis) : Text :=
  S.tip env (beforeTip S rows op t') (S.found rows (S.within op t' (t' + dayMs)))

/-- The row that carries the seam of a day once an earlier day is hashed. -/
def bearer (S : Stream R) (rows : List R) (op : String) (t t' : Millis) : Option R :=
  (S.found rows fun r =>
    S.earlier op t r && (S.hashed r || S.within op t' (t' + dayMs) r)).getLast?

/-- **The row that carries the seam, if it is of the earlier day, has the tip of that day.** -/
def Rehashed (env : Env) (S : Stream R) (rows : List R) (op : String) (t t' : Millis) : Prop :=
  ∀ r ∈ bearer S rows op t t', S.within op t' (t' + dayMs) r = true →
    S.rowHash r = some (dayTip env S rows op t')

/-- The last entry that satisfies a condition, and what stands around it. -/
theorem exists_of_getLast?_filter {α : Type} {p : α → Bool} {l : List α} {a : α}
    (h : (l.filter p).getLast? = some a) :
    ∃ front rest, l = front ++ a :: rest ∧ p a = true ∧ ∀ x ∈ rest, p x = false := by
  induction l using List.reverseRecOn with
  | nil => cases h
  | append_singleton l b ih =>
      rw [List.filter_append] at h
      cases hb : p b with
      | true =>
          simp only [List.filter_cons, hb, if_true, List.filter_nil, List.getLast?_concat,
            Option.some.injEq] at h
          subst h
          exact ⟨l, [], rfl, hb, fun x hx => absurd hx List.not_mem_nil⟩
      | false =>
          simp only [List.filter_cons, hb, List.filter_nil, List.append_nil, Bool.false_eq_true,
            if_false] at h
          obtain ⟨front, rest, rfl, ha, hrest⟩ := ih h
          refine ⟨front, rest ++ [b], by simp, ha, ?_⟩
          intro x hx
          rcases List.mem_append.mp hx with hx | hx
          · exact hrest x hx
          · rw [List.mem_singleton.mp hx]
            exact hb

/-- What is found under two conditions is found under the first. -/
theorem found_and (rows : List R) (p q : R → Bool) :
    S.found rows (fun r => p r && q r) = (S.found rows p).filter q := by
  rw [Stream.found, Stream.found, List.filter_filter]
  exact List.filter_congr fun r _ => Bool.and_comm _ _

section Rehash

variable {t' : Millis} {f : R → R}

/-- The rows of an earlier day, among those created before the day. -/
theorem found_within (ht : t' + dayMs ≤ t) : S.found rows (S.within op t' (t' + dayMs)) =
    (S.found rows (S.earlier op t)).filter (S.within op t' (t' + dayMs)) := by
  rw [← found_and]
  refine List.filter_congr ?_
  intro r _
  cases hr : S.within op t' (t' + dayMs) r with
  | true => rw [earlier_of_within hr ht, Bool.and_self]
  | false => rw [Bool.and_false]

/-- The row that carries the seam keeps its hash when its day is hashed again. -/
theorem Rehashed.rowHash_eq (h : Rehashed env S rows op t t') (hkeyed : S.Keyed rows)
    (ht : t' + dayMs ≤ t) (hf : Relinks S f)
    (hfP : ∀ r ∈ rows, f r = r ∨ S.within op t' (t' + dayMs) r = true)
    (hrows : (summariseDay env S rows op t' (t' + dayMs)).1 = rows.map f) {r : R}
    (hr : r ∈ bearer S rows op t t') : S.rowHash (f r) = S.rowHash r := by
  rw [bearer, found_and] at hr
  obtain ⟨front, rest, hsplit, hbears, hrest⟩ := exists_of_getLast?_filter hr
  have hmem : r ∈ rows := by
    have hfound : r ∈ S.found rows (S.earlier op t) := by
      rw [hsplit]
      exact List.mem_append_right _ List.mem_cons_self
    exact (mem_found.mp hfound).1
  by_cases hwithin : S.within op t' (t' + dayMs) r = true
  · have hhash := h r (by rw [bearer, found_and]; exact hr) hwithin
    -- the row is the last one of its day
    have hday : S.found rows (S.within op t' (t' + dayMs)) =
        front.filter (S.within op t' (t' + dayMs)) ++ [r] := by
      have hnone : rest.filter (S.within op t' (t' + dayMs)) = [] := by
        refine List.filter_eq_nil_iff.mpr ?_
        intro x hx hx'
        have hno := hrest x hx
        rw [hx', Bool.or_true] at hno
        exact Bool.noConfusion hno
      rw [found_within ht, hsplit, List.filter_append, List.filter_cons, if_pos hwithin, hnone]
    have hne : S.found rows (S.within op t' (t' + dayMs)) ≠ [] := by
      rw [hday]
      simp
    obtain ⟨s, heq, -⟩ := summariseDay_of_ne_nil env hne
    rw [heq] at hrows
    have hlast := repair_hash env (S.found rows (S.within op t' (t' + dayMs)))
      (beforeTip S rows op t') rows hkeyed (hkeyed.found _) (fun d hd => (mem_found.mp hd).1)
      (f r) (by rw [hrows]; exact List.mem_map_of_mem hmem) r (by rw [hday]; simp) (hf.id_eq r)
    rw [hhash, hlast, dayTip]
  · rw [(hfP r hmem).resolve_right hwithin]

/-- **An earlier day is hashed again unread** when the row that carries the seam has the tip of that
day, and it still has it afterwards. -/
theorem unseen_rehash (h : Rehashed env S rows op t t') (hkeyed : S.Keyed rows)
    (ht : t' + dayMs ≤ t) :
    Unseen S op t rows (summariseDay env S rows op t' (t' + dayMs)).1 ∧
      Rehashed env S (summariseDay env S rows op t' (t' + dayMs)).1 op t t' := by
  obtain ⟨f, hf, hin, hrows⟩ := summariseDay_within env hkeyed op t' (t' + dayMs)
  have hfP : ∀ r ∈ rows, f r = r ∨ S.within op t' (t' + dayMs) r = true := hin
  have hcontent := (summariseDay_within env hkeyed op t' (t' + dayMs)).map_content op t' (t' + dayMs)
  have hearlier : ∀ u, (fun r => S.earlier op u (f r)) = S.earlier op u := fun u =>
    funext fun r => earlier_congr (hf.operatorId_eq r) (hf.stamp_eq r) op u
  have hwithin : ∀ r, S.within op t' (t' + dayMs) (f r) = S.within op t' (t' + dayMs) r :=
    fun r => within_congr (hf.operatorId_eq r) (hf.stamp_eq r) op t' (t' + dayMs)
  constructor
  · rw [hrows]
    refine unseen_map hf.id_eq hf.operatorId_eq hf.stamp_eq (fun r _ _ => hf.content_eq r) ?_
    have hfix : ∀ r ∈ S.found rows (S.earlier op t), S.within op t' (t' + dayMs) r = false →
        f r = r := fun r hr hno =>
      (hfP r (mem_found.mp hr).1).resolve_right (by rw [hno]; exact Bool.false_ne_true)
    cases hbearer : bearer S rows op t t' with
    | none =>
        -- no row is hashed, and none of the earlier day is there
        rw [bearer, found_and, List.getLast?_eq_none_iff, List.filter_eq_nil_iff] at hbearer
        have hfixed : (S.found rows (S.earlier op t)).map f = S.found rows (S.earlier op t) := by
          refine (List.map_congr_left fun r hr => hfix r hr ?_).trans (List.map_id' _)
          have hno := hbearer r hr
          simp only [Bool.or_eq_true, not_or, Bool.not_eq_true] at hno
          exact hno.2
        rw [hfixed]
    | some r =>
        have hsame := h.rowHash_eq hkeyed ht hf hfP hrows hbearer
        have hlast := hbearer
        rw [bearer, found_and] at hlast
        obtain ⟨front, rest, hsplit, hbears, hrest⟩ := exists_of_getLast?_filter hlast
        have hrfound : r ∈ S.found rows (S.earlier op t) := by
          rw [hsplit]
          exact List.mem_append_right _ List.mem_cons_self
        have hfixed : rest.map f = rest := by
          refine (List.map_congr_left fun x hx => hfix x ?_ ?_).trans (List.map_id' _)
          · rw [hsplit]
            exact List.mem_append_right _ (List.mem_cons_of_mem r hx)
          · have hno := hrest x hx
            simp only [Bool.or_eq_false_iff] at hno
            exact hno.2
        obtain ⟨d, hd⟩ : ∃ d, S.rowHash r = some d := by
          rcases (Bool.or_eq_true _ _).mp hbears with hhashed | hday
          · exact Option.isSome_iff_exists.mp hhashed
          · exact ⟨_, h r hbearer hday⟩
        have hne : (r :: rest).filterMap S.rowHash ≠ [] := by
          rw [List.filterMap_cons_some hd]
          exact List.cons_ne_nil _ _
        have hne' : (f r :: rest).filterMap S.rowHash ≠ [] := by
          rw [List.filterMap_cons_some (hsame.trans hd)]
          exact List.cons_ne_nil _ _
        rw [hsplit, List.map_append, List.map_cons, hfixed, getLast?_filterMap_append hne,
          getLast?_filterMap_append hne', List.filterMap_cons_some hd,
          List.filterMap_cons_some (hsame.trans hd)]
  · intro x hx hday
    rw [hrows, bearer, found_map hf.id_eq hf.stamp_eq, List.getLast?_map] at hx
    have hcond : (S.found rows fun r => S.earlier op t (f r) &&
        (S.hashed (f r) || S.within op t' (t' + dayMs) (f r))) =
        S.found rows fun r => S.earlier op t r &&
          (S.hashed r || S.within op t' (t' + dayMs) r) := by
      refine List.filter_congr ?_
      intro r hr
      have hrrows : r ∈ rows := (List.mem_insertionSort _).mp hr
      rw [congrFun (hearlier t) r, hwithin r]
      rcases hfP r hrrows with hfr | hin
      · rw [hfr]
      · rw [hin, Bool.or_true, Bool.or_true]
    rw [hcond] at hx
    obtain ⟨r, hr, rfl⟩ := Option.map_eq_some_iff.mp hx
    have hsame := h.rowHash_eq hkeyed ht hf hfP hrows hr
    rw [hwithin r] at hday
    rw [hsame, h r hr hday]
    -- neither the rows before that day nor its content changed
    have hbefore : beforeTip S (rows.map f) op t' = beforeTip S rows op t' := by
      rw [beforeTip, beforeTip, found_map hf.id_eq hf.stamp_eq, hearlier, List.getLast?_map]
      cases hlast : (S.found rows (S.earlier op t')).getLast? with
      | none => rfl
      | some y =>
          obtain ⟨hy, hyearlier⟩ := mem_found.mp (List.mem_of_getLast? hlast)
          have hfy : f y = y := by
            refine (hfP y hy).resolve_right ?_
            rw [within_of_earlier hyearlier (Nat.le_refl t') op]
            exact Bool.false_ne_true
          rw [Option.map_some, hfy]
    rw [hrows] at hcontent ⊢
    exact congrArg some (S.tip_congr (by rw [hbefore]) hcontent).symm

end Rehash

end YantraRgs.AuditChain
