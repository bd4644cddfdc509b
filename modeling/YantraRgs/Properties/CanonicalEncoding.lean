import YantraRgs.Audit.Tips
import YantraRgs.Db.Jsonb
import YantraRgs.Services.JsonParse

/-! # The canonical encoding

The canonical text of a JSON value determines the value, up to the order of the keys of its objects.

* **`Value.Same`** — equality up to the order of keys.
* **`same_iff`** — JSON values are the same exactly when their texts show one tree.
* **`canonical_encoding`** — the canonical text is read back, and two values have one text exactly when
  they are the same; so do rows with one hash. -/

namespace YantraRgs

mutual

/-- **Equality up to the order of keys**: objects have equally many entries, and every entry of the one
has its like in the other. -/
def Value.Same : Value → Value → Prop
  | .null, .null => True
  | .bool b, .bool b' => b = b'
  | .number n, .number n' => n = n'
  | .string s, .string s' => s = s'
  | .bigint n, .bigint n' => n = n'
  | .date t, .date t' => t = t'
  | .array vs, .array ws => ElementsSame vs ws
  | .object es, .object fs => es.length = fs.length ∧ EntriesSame es fs
  | _, _ => False

def ElementsSame : List Value → List Value → Prop
  | [], [] => True
  | v :: vs, w :: ws => v.Same w ∧ ElementsSame vs ws
  | _, _ => False

def EntriesSame : List (String × Value) → List (String × Value) → Prop
  | [], _ => True
  | e :: es, fs => (∃ w, (e.1, w) ∈ fs ∧ e.2.Same w) ∧ EntriesSame es fs

end

mutual

/-- The numbers of a value. -/
def Value.numbers : Value → List Numeral
  | .number n => [n]
  | .array vs => elementNumbers vs
  | .object es => entryNumbers es
  | _ => []

def elementNumbers : List Value → List Numeral
  | [] => []
  | v :: vs => v.numbers ++ elementNumbers vs

def entryNumbers : List (String × Value) → List Numeral
  | [] => []
  | e :: es => e.2.numbers ++ entryNumbers es

end

/-! ## The same values show one tree -/

/-- The keys of an object stand in its text. -/
theorem keys_entryTrees (es : List (String × Value)) :
    (entryTrees es).map Prod.fst = es.map Prod.fst := by
  rw [entryTrees_eq, List.map_map]
  rfl

/-- Sorted entries are the entries in some order. -/
theorem sortEntries_eq_iff {α : Type} {es fs : List (String × α)} (hkeys : (es.map Prod.fst).Nodup) :
    sortEntries es = sortEntries fs ↔ es.Perm fs := by
  refine ⟨fun h => ?_, fun h => sortEntries_eq_of_perm h hkeys⟩
  have hes := List.perm_insertionSort (fun a b : String × α => utf16 a.1 ≤ utf16 b.1) es
  have hfs := List.perm_insertionSort (fun a b : String × α => utf16 a.1 ≤ utf16 b.1) fs
  exact hes.symm.trans ((List.Perm.of_eq h).trans hfs)

/-- Equally many entries with different keys are the others in some order, if all are among them. -/
theorem perm_of_forall_mem {α : Type} {es fs : List (String × α)} (hkeys : (es.map Prod.fst).Nodup)
    (hlen : es.length = fs.length) (h : ∀ e ∈ es, e ∈ fs) : es.Perm fs :=
  (List.subperm_of_subset hkeys.of_map h).perm_of_length_le hlen.ge

mutual

/-- **JSON values are the same** exactly when their texts show one tree. -/
theorem same_iff : ∀ {v w : Value}, v.isJson = true → w.isJson = true → (v.Same w ↔ v.tree = w.tree)
  | .array vs, .array ws, hv, hw => by
      rw [Value.Same, Value.tree, Value.tree, Tree.array.injEq]
      exact elementsSame_iff hv hw
  | .object es, .object fs, hv, hw => by
      rw [Value.isJson, Bool.and_eq_true, decide_eq_true_eq] at hv hw
      have hkeys : ((entryTrees es).map Prod.fst).Nodup := by
        rw [keys_entryTrees]
        exact hv.1
      have hmem := entries_mem_iff es hv.2 hw.2
      rw [Value.Same, Value.tree, Value.tree, Tree.object.injEq, sortEntries_eq_iff hkeys, hmem]
      constructor
      · rintro ⟨hlen, hall⟩
        refine perm_of_forall_mem hkeys ?_ hall
        rw [entryTrees_eq, entryTrees_eq, List.length_map, List.length_map, hlen]
      · intro hperm
        refine ⟨?_, fun e he => hperm.mem_iff.mp he⟩
        have hlen := hperm.length_eq
        rwa [entryTrees_eq, entryTrees_eq, List.length_map, List.length_map] at hlen
  | .null, w, _, hw => by cases w <;> simp_all [Value.Same, Value.tree, Value.isJson]
  | .bool b, w, _, hw => by cases w <;> simp_all [Value.Same, Value.tree, Value.isJson]
  | .number n, w, _, hw => by cases w <;> simp_all [Value.Same, Value.tree, Value.isJson]
  | .string s, w, _, hw => by cases w <;> simp_all [Value.Same, Value.tree, Value.isJson]
  | .bigint n, _, hv, _ => by cases hv
  | .date t, _, hv, _ => by cases hv
  | .array vs, .null, _, _ | .array vs, .bool _, _, _ | .array vs, .number _, _, _
  | .array vs, .string _, _, _ | .array vs, .bigint _, _, _ | .array vs, .date _, _, _
  | .array vs, .object _, _, _ => by simp [Value.Same, Value.tree]
  | .object es, .null, _, _ | .object es, .bool _, _, _ | .object es, .number _, _, _
  | .object es, .string _, _, _ | .object es, .bigint _, _, _ | .object es, .date _, _, _
  | .object es, .array _, _, _ => by simp [Value.Same, Value.tree]

theorem elementsSame_iff : ∀ {vs ws : List Value}, areJson vs = true → areJson ws = true →
    (ElementsSame vs ws ↔ elementTrees vs = elementTrees ws)
  | [], [], _, _ => by simp [ElementsSame]
  | [], _ :: _, _, _ => by simp [ElementsSame, elementTrees]
  | _ :: _, [], _, _ => by simp [ElementsSame, elementTrees]
  | v :: vs, w :: ws, hv, hw => by
      rw [areJson, Bool.and_eq_true] at hv hw
      rw [ElementsSame, elementTrees, elementTrees, List.cons.injEq, same_iff hv.1 hw.1,
        elementsSame_iff hv.2 hw.2]

theorem entries_mem_iff : ∀ (es : List (String × Value)) {fs : List (String × Value)},
    membersAreJson es = true → membersAreJson fs = true →
      (EntriesSame es fs ↔ ∀ e ∈ entryTrees es, e ∈ entryTrees fs)
  | [], _, _, _ => by simp [EntriesSame, entryTrees]
  | (key, v) :: es, fs, hes, hfs => by
      rw [membersAreJson, Bool.and_eq_true] at hes
      have hhead : (∃ w, (key, w) ∈ fs ∧ v.Same w) ↔ (key, v.tree) ∈ entryTrees fs := by
        rw [entryTrees_eq, List.mem_map]
        constructor
        · rintro ⟨w, hw, hsame⟩
          have hjson := membersAreJson_iff.mp hfs _ hw
          exact ⟨(key, w), hw, by rw [(same_iff hes.1 hjson).mp hsame]⟩
        · rintro ⟨⟨key', w⟩, hw, heq⟩
          obtain ⟨hkey, htree⟩ := Prod.mk.inj heq
          subst hkey
          have hjson := membersAreJson_iff.mp hfs _ hw
          exact ⟨w, hw, (same_iff hes.1 hjson).mpr htree.symm⟩
      rw [EntriesSame, entryTrees, List.forall_mem_cons, entries_mem_iff es hes.2 hfs]
      exact and_congr_left fun _ => hhead

end

/-! ## What is read back -/

theorem entriesReadable_iff {readNumber : Text → Option Numeral} {es : List (String × Tree)} :
    EntriesReadable readNumber es ↔ ∀ e ∈ es, e.2.Readable readNumber := by
  induction es with
  | nil => simp [EntriesReadable]
  | cons e es ih => rw [EntriesReadable, ih, List.forall_mem_cons]

mutual

/-- The tree of a JSON value is read back from its text. -/
theorem readable_tree {readNumber : Text → Option Numeral} : ∀ {v : Value}, v.isJson = true →
    (∀ n ∈ v.numbers, readNumber n.text = some n) → v.tree.Readable readNumber
  | .null, _, _ => trivial
  | .bool _, _, _ => trivial
  | .number n, _, hread => hread n List.mem_cons_self
  | .string _, _, _ => trivial
  | .bigint _, hv, _ => by cases hv
  | .date _, hv, _ => by cases hv
  | .array vs, hv, hread => readable_elementTrees hv hread
  | .object es, hv, hread => by
      rw [Value.isJson, Bool.and_eq_true, decide_eq_true_eq] at hv
      have hperm : (sortEntries (entryTrees es)).Perm (entryTrees es) := List.perm_insertionSort _ _
      rw [Value.tree, Tree.Readable]
      constructor
      · rw [(hperm.map Prod.fst).nodup_iff, keys_entryTrees]
        exact hv.1
      · rw [entriesReadable_iff]
        intro e he
        exact entriesReadable_iff.mp (readable_entryTrees hv.2 hread) e (hperm.mem_iff.mp he)

theorem readable_elementTrees {readNumber : Text → Option Numeral} : ∀ {vs : List Value},
    areJson vs = true → (∀ n ∈ elementNumbers vs, readNumber n.text = some n) →
      ElementsReadable readNumber (elementTrees vs)
  | [], _, _ => trivial
  | v :: vs, hv, hread => by
      rw [areJson, Bool.and_eq_true] at hv
      rw [elementNumbers, List.forall_mem_append] at hread
      exact ⟨readable_tree hv.1 hread.1, readable_elementTrees hv.2 hread.2⟩

theorem readable_entryTrees {readNumber : Text → Option Numeral} : ∀ {es : List (String × Value)},
    membersAreJson es = true → (∀ n ∈ entryNumbers es, readNumber n.text = some n) →
      EntriesReadable readNumber (entryTrees es)
  | [], _, _ => trivial
  | (key, v) :: es, hv, hread => by
      rw [membersAreJson, Bool.and_eq_true] at hv
      rw [entryNumbers, List.forall_mem_append] at hread
      exact ⟨readable_tree hv.1 hread.1, readable_entryTrees hv.2 hread.2⟩

end

theorem entryTrees_entryValues {es : List (String × Tree)} (h : ∀ e ∈ es, e.2.value.tree = e.2) :
    entryTrees (entryValues es) = es := by
  induction es with
  | nil => rfl
  | cons e es ih =>
      rw [List.forall_mem_cons] at h
      rw [entryValues, entryTrees, h.1, ih h.2]

mutual

/-- What the text of a JSON value shows is a JSON value, with the same tree. -/
theorem value_tree : ∀ {v : Value}, v.isJson = true →
    v.tree.value.isJson = true ∧ v.tree.value.tree = v.tree
  | .null, _ => ⟨rfl, rfl⟩
  | .bool _, _ => ⟨rfl, rfl⟩
  | .number _, _ => ⟨rfl, rfl⟩
  | .string _, _ => ⟨rfl, rfl⟩
  | .bigint _, hv => by cases hv
  | .date _, hv => by cases hv
  | .array vs, hv => by
      obtain ⟨hjson, htree⟩ := value_elementTrees hv
      rw [Value.tree, Tree.value, Value.isJson, Value.tree, htree]
      exact ⟨hjson, rfl⟩
  | .object es, hv => by
      rw [Value.isJson, Bool.and_eq_true, decide_eq_true_eq] at hv
      have hperm : (sortEntries (entryTrees es)).Perm (entryTrees es) := List.perm_insertionSort _ _
      have hkeys : ((sortEntries (entryTrees es)).map Prod.fst).Nodup := by
        rw [(hperm.map Prod.fst).nodup_iff, keys_entryTrees]
        exact hv.1
      have hentries : ∀ e ∈ sortEntries (entryTrees es),
          e.2.value.isJson = true ∧ e.2.value.tree = e.2 := fun e he =>
        value_entryTrees hv.2 e (hperm.mem_iff.mp he)
      rw [Value.tree, Tree.value]
      constructor
      · rw [Value.isJson, Bool.and_eq_true, decide_eq_true_eq, entryValues_eq, List.map_map,
          membersAreJson_iff]
        refine ⟨hkeys, fun e he => ?_⟩
        obtain ⟨f, hf, rfl⟩ := List.mem_map.mp he
        exact (hentries f hf).1
      · rw [Value.tree, entryTrees_entryValues fun e he => (hentries e he).2,
          sortEntries_eq_of_perm hperm hkeys]

theorem value_elementTrees : ∀ {vs : List Value}, areJson vs = true →
    areJson (elementValues (elementTrees vs)) = true ∧
      elementTrees (elementValues (elementTrees vs)) = elementTrees vs
  | [], _ => ⟨rfl, rfl⟩
  | v :: vs, hv => by
      rw [areJson, Bool.and_eq_true] at hv
      obtain ⟨hjson, htree⟩ := value_tree hv.1
      obtain ⟨hjsons, htrees⟩ := value_elementTrees hv.2
      rw [elementTrees, elementValues, areJson, elementTrees, htree, htrees, hjson, hjsons]
      exact ⟨rfl, rfl⟩

theorem value_entryTrees : ∀ {es : List (String × Value)}, membersAreJson es = true →
    ∀ e ∈ entryTrees es, e.2.value.isJson = true ∧ e.2.value.tree = e.2
  | [], _, e, he => by cases he
  | (key, v) :: es, hv, e, he => by
      rw [membersAreJson, Bool.and_eq_true] at hv
      rcases List.mem_cons.mp he with heq | he
      · rw [heq]
        exact value_tree hv.1
      · exact value_entryTrees hv.2 e he

end

/-! ## The encoding -/

theorem canonicalJson_eq_iff {v w : Value} : canonicalJson v = canonicalJson w ↔ v.tree = w.tree := by
  refine ⟨canonicalJson_inj, fun h => ?_⟩
  rw [canonicalJson_eq_print, canonicalJson_eq_print, h]

/-- **The canonical text of a JSON value is read back** up to the order of keys; **values have one text
exactly when they are the same** up to that order; and so do rows with one hash. -/
theorem canonical_encoding {readNumber : Text → Option Numeral} {v w : Value} (hv : v.isJson = true)
    (hw : w.isJson = true) (hread : ∀ n ∈ v.numbers, readNumber n.text = some n) :
    (∃ u, JsonParse.parse readNumber (canonicalJson v) = some u ∧ u.Same v) ∧
      (canonicalJson v = canonicalJson w ↔ v.Same w) ∧
        ∀ env : AuditChain.Env, Function.Injective env.sha256 → ∀ prev prev' es fs,
          v = .object es → w = .object fs →
            AuditChain.hashRow env prev es = AuditChain.hashRow env prev' fs → v.Same w := by
  refine ⟨⟨v.tree.value, ?_, ?_⟩, ?_, ?_⟩
  · rw [canonicalJson_eq_print]
    exact JsonParse.parse_print (readable_tree hv hread)
  · obtain ⟨hjson, htree⟩ := value_tree hv
    exact (same_iff hjson hv).mpr htree
  · rw [canonicalJson_eq_iff, same_iff hv hw]
  · rintro env hsha prev prev' es fs rfl rfl hhash
    rw [same_iff hv hw]
    rw [AuditChain.hashRow, AuditChain.hashRow, canonicalJson_eq_print, canonicalJson_eq_print] at hhash
    exact (AuditChain.binding hsha _ _ _ _ hhash).2

/-- An object of a number and a list, in either order of its keys. -/
def sampleValue (swapped : Bool) : Value :=
  if swapped then .object [("b", .number (.ofInt 2)), ("a", .array [.null])]
  else .object [("a", .array [.null]), ("b", .number (.ofInt 2))]

/-- Two entries in either order have one text. -/
theorem canonical_encoding_swapped : (sampleValue true).Same (sampleValue false) := by
  have hswapped : (sampleValue true).isJson = true := by decide +kernel
  have hsorted : (sampleValue false).isJson = true := by decide +kernel
  have hread : ∀ n ∈ (sampleValue true).numbers, plainNumeral n.text = some n := fun n _ =>
    plainNumeral_text n
  have htext : canonicalJson (sampleValue true) = canonicalJson (sampleValue false) := by
    decide +kernel
  exact (canonical_encoding hswapped hsorted hread).2.1.mp htext

end YantraRgs
