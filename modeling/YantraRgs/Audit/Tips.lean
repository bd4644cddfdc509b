import YantraRgs.Services.AuditChain

/-! # The tips of audit chains

What the service computes over a day is a hash chain over the hashed columns of its rows, whatever
hashes are stored in them.

* **`Stream.content`**, **`Stream.fields`** — what a hash is made from, and the columns it shows.
* **`chainLink`**, **`binding`** — the hash of a row over the digest before it; with an injective
  digest it determines both.
* **`Stream.tip`** — the tip of a chain of rows; `repair` and `replay` compute it.
* **`Relinked`** — rows of which only hash columns were written. -/

namespace YantraRgs.AuditChain

variable {R : Type} (S : Stream R)

/-! ## Hashed columns -/

/-- What the hash of a row is made from. -/
def Stream.content (r : R) : Tree := (Value.object (S.hashInput r)).tree

/-- The hashed columns of a row, with JSON documents up to the order of their keys. -/
def Stream.fields (r : R) : List (String × Tree) := entryTrees (S.hashInput r)

theorem Stream.keys_fields (r : R) : (S.fields r).map Prod.fst = S.keys := by
  rw [fields, entryTrees_eq, List.map_map]
  exact S.keys_eq r

/-- The hash of a row is made from its hashed columns. -/
theorem Stream.content_eq_iff {r s : R} : S.content r = S.content s ↔ S.fields r = S.fields s := by
  constructor
  · intro h
    refine sortEntries_inj ?_ ?_ (Tree.object.inj h)
    · rw [S.keys_fields, S.keys_fields]
    · rw [S.keys_fields]
      exact S.keys_nodup
  · intro h
    change Tree.object (sortEntries (S.fields r)) = Tree.object (sortEntries (S.fields s))
    rw [h]

/-- Lists of rows have one content exactly when they agree in every hashed column. -/
theorem Stream.map_content_eq_iff {rows rows' : List R} :
    rows.map S.content = rows'.map S.content ↔ rows.map S.fields = rows'.map S.fields := by
  induction rows generalizing rows' with
  | nil => cases rows' <;> simp
  | cons r rows ih =>
      cases rows' with
      | nil => simp
      | cons s rows' => simp only [List.map_cons, List.cons.injEq, ih, S.content_eq_iff]

/-! ## The chain of a day -/

/-- The hash of a row's content over the digest before it. -/
def chainLink (env : Env) (digest : Text) (content : Tree) : Text :=
  env.sha256 (digest ++ '\n' :: content.print)

theorem hashRow_eq (env : Env) (prev : Option Text) (r : R) :
    hashRow env prev (S.hashInput r) = chainLink env (prev.getD []) (S.content r) := by
  rw [hashRow, chainLink, Stream.content, canonicalJson_eq_print]

/-- **A digest determines what it was made from**: the text of a row is a single line. -/
theorem binding {env : Env} (hsha : Function.Injective env.sha256) :
    HashChain.Binding (chainLink env) := by
  intro d t e u h
  have htext := congrArg List.reverse (hsha h)
  simp only [List.reverse_append, List.reverse_cons, List.append_assoc, List.cons_append,
    List.nil_append] at htext
  obtain ⟨hprint, hdigest⟩ := append_cons_inj
    (by rw [List.mem_reverse]; exact t.newline_notMem_print)
    (by rw [List.mem_reverse]; exact u.newline_notMem_print) htext
  exact ⟨List.reverse_injective hdigest, Tree.print_inj (List.reverse_injective hprint)⟩

/-- **The tip of a chain of rows.** -/
def Stream.tip (env : Env) (start : Option Text) (rows : List R) : Text :=
  (rows.map S.content).foldl (chainLink env) (start.getD [])

theorem Stream.tip_cons (env : Env) (start : Option Text) (r : R) (rows : List R) :
    S.tip env start (r :: rows) = S.tip env (some (hashRow env start (S.hashInput r))) rows := by
  rw [tip, tip, List.map_cons, List.foldl_cons, hashRow_eq]
  rfl

/-- The tip depends on the content of the rows alone. -/
theorem Stream.tip_congr {env : Env} {start start' : Option Text} {rows rows' : List R}
    (hstart : start.getD [] = start'.getD []) (h : rows.map S.content = rows'.map S.content) :
    S.tip env start rows = S.tip env start' rows' := by
  rw [tip, tip, hstart, h]

/-- Repairing a day computes its tip. -/
theorem repair_tip (env : Env) (day : List R) : ∀ (prev : Option Text) (rows : List R),
    (repair env S prev day rows).2.getD [] = S.tip env prev day := by
  induction day with
  | nil => exact fun _ _ => rfl
  | cons r day ih =>
      intro prev rows
      rw [repair, S.tip_cons]
      exact ih _ _

/-- Replaying a day computes its tip. -/
theorem replay_tip (env : Env) (day : List R) : ∀ (prev : Option Text) (firstMismatch : Option String),
    (replay env S prev firstMismatch day).1.getD [] = S.tip env prev day := by
  induction day with
  | nil => exact fun _ _ => rfl
  | cons r day ih =>
      intro prev firstMismatch
      rw [replay, S.tip_cons]
      exact ih _ _

/-- **The verdict of a verification.** -/
theorem verifyStream_verified (env : Env) (rows : List R) (stream op : String) (a : AuditAnchor) :
    (verifyStream env S rows stream op a).verified = true ↔
      S.tip env (seam S rows op a.periodDate)
        (S.found rows (S.within op a.periodDate (a.periodDate + dayMs))) = a.tipHash := by
  rw [← replay_tip S env _ _ none]
  simp only [verifyStream, decide_eq_true_eq]

/-! ## Rows of which only hash columns were written -/

/-- A write of hash columns, and of nothing else. -/
def Relinks (f : R → R) : Prop := ∀ r, f r = r ∨ ∃ p h, f r = S.link r p h

/-- Rows of which only hash columns were written, in rows of a kind. -/
def Relinked (P : R → Prop) (rows rows' : List R) : Prop :=
  ∃ f, Relinks S f ∧ (∀ r ∈ rows, f r = r ∨ P r) ∧ rows' = rows.map f

section Relinks

variable {S}
variable {P : R → Prop} {f : R → R}

theorem Relinks.id_eq (h : Relinks S f) (r : R) : S.id (f r) = S.id r := by
  rcases h r with h | ⟨p, d, h⟩ <;> simp [h]

theorem Relinks.operatorId_eq (h : Relinks S f) (r : R) : S.operatorId (f r) = S.operatorId r := by
  rcases h r with h | ⟨p, d, h⟩ <;> simp [h]

theorem Relinks.stamp_eq (h : Relinks S f) (r : R) : S.stamp (f r) = S.stamp r := by
  rcases h r with h | ⟨p, d, h⟩ <;> simp [h]

theorem Relinks.content_eq (h : Relinks S f) (r : R) : S.content (f r) = S.content r := by
  rcases h r with h | ⟨p, d, h⟩ <;> simp [h, Stream.content]

/-- Which day a row belongs to is seen from its operator and its time stamp. -/
theorem within_congr {r s : R} (hop : S.operatorId r = S.operatorId s) (hstamp : S.stamp r = S.stamp s)
    (op : String) (t u : Millis) : S.within op t u r = S.within op t u s := by
  rw [Stream.within, Stream.within, hop, hstamp]

theorem earlier_congr {r s : R} (hop : S.operatorId r = S.operatorId s)
    (hstamp : S.stamp r = S.stamp s) (op : String) (t : Millis) :
    S.earlier op t r = S.earlier op t s := by
  rw [Stream.earlier, Stream.earlier, hop, hstamp]

/-- The order of a stream looks at identifiers and time stamps alone. -/
theorem found_map {g : R → R} (hid : ∀ r, S.id (g r) = S.id r)
    (hstamp : ∀ r, S.stamp (g r) = S.stamp r) (rows : List R) (p : R → Bool) :
    S.found (rows.map g) p = (S.found rows fun r => p (g r)).map g := by
  have hsort := List.map_insertionSort (fun a b => S.before a b = true)
    (fun a b => S.before a b = true) g rows (by
      intro a _ b _
      simp only [Stream.before, hid, hstamp])
  rw [Stream.found, ← hsort, List.filter_map]
  rfl

/-- The rows that are found are rows of the table. -/
theorem mem_found {rows : List R} {p : R → Bool} {r : R} :
    r ∈ S.found rows p ↔ r ∈ rows ∧ p r = true := by
  rw [Stream.found, List.mem_filter, List.mem_insertionSort]

/-- A day has the content it had. -/
theorem Relinked.map_content {rows rows' : List R} (h : Relinked S P rows rows') (op : String)
    (t u : Millis) :
    (S.found rows' (S.within op t u)).map S.content =
      (S.found rows (S.within op t u)).map S.content := by
  obtain ⟨f, hf, -, rfl⟩ := h
  have hwithin : (fun r => S.within op t u (f r)) = S.within op t u :=
    funext fun r => within_congr (hf.operatorId_eq r) (hf.stamp_eq r) op t u
  have hcontent : S.content ∘ f = S.content := funext hf.content_eq
  rw [found_map hf.id_eq hf.stamp_eq, List.map_map, hwithin, hcontent]

theorem Relinked.refl (rows : List R) : Relinked S P rows rows :=
  ⟨id, fun _ => .inl rfl, fun _ _ => .inl rfl, (List.map_id _).symm⟩

/-- One write of hash columns. -/
theorem Relinked.update (rows : List R) (id : String) (p : Option Text) (h : Text) :
    Relinked S (S.id · = id) rows (S.update rows id fun r => S.link r p h) := by
  refine ⟨fun r => if S.id r = id then S.link r p h else r, ?_, ?_, rfl⟩
  · intro r
    by_cases hr : S.id r = id
    · exact .inr ⟨p, h, if_pos hr⟩
    · exact .inl (if_neg hr)
  · intro r _
    by_cases hr : S.id r = id
    · exact .inr hr
    · exact .inl (if_neg hr)

theorem Relinked.mono {Q : R → Prop} {rows rows' : List R} (h : ∀ r ∈ rows, P r → Q r)
    (hrows : Relinked S P rows rows') : Relinked S Q rows rows' := by
  obtain ⟨f, hf, hP, rfl⟩ := hrows
  refine ⟨f, hf, ?_, rfl⟩
  intro r hr
  exact (hP r hr).imp_right (h r hr)

/-- One write after the other. -/
theorem Relinked.trans {rows rows' rows'' : List R}
    (h : Relinked S P rows rows') (h' : Relinked S P rows' rows'') : Relinked S P rows rows'' := by
  obtain ⟨f, hf, hfP, rfl⟩ := h
  obtain ⟨g, hg, hgP, rfl⟩ := h'
  refine ⟨g ∘ f, ?_, ?_, List.map_map⟩
  · intro r
    rcases hf r with hr | ⟨p, d, hr⟩
    · rw [Function.comp_apply, hr]
      exact hg r
    · rw [Function.comp_apply, hr]
      rcases hg (S.link r p d) with hs | ⟨q, e, hs⟩
      · exact .inr ⟨p, d, hs⟩
      · exact .inr ⟨q, e, by rw [hs, S.link_link]⟩
  · intro r hr
    rcases hfP r hr with hfr | hPr
    · rw [Function.comp_apply, hfr]
      exact hgP r (hfr ▸ List.mem_map_of_mem hr)
    · exact .inr hPr

end Relinks

end YantraRgs.AuditChain
