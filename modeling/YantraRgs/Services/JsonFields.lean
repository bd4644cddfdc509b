import YantraRgs.Services.JsonParse

/-! # Fields of JSON objects

An object is written from its fields, where a field that is not there is not written, and its texts are
read back by their names.

* **`written`** — the entries of an object; **`readable_written`** — they are read as they print.
* **`textField`**, **`stringField`** — a text that an object has under a name.
* **`textField_written`**, **`stringField_written`** — a text that was written is read back. -/

namespace YantraRgs.JsonFields

/-- The JSON string of a text. -/
def textTree (s : Text) : Tree := .string (String.ofList s)

/-- The entries of an object: a field that is not there is not written. -/
def written (fields : List (String × Option Tree)) : List (String × Tree) :=
  fields.filterMap fun field => field.2.map fun value => (field.1, value)

/-- A text of an object: `null` is as good as missing. There is none where it is another value. -/
def textField (es : List (String × Value)) (name : String) : Option (Option Text) :=
  match es.find? (·.1 = name) with
  | none => some none
  | some (_, .null) => some none
  | some (_, .string s) => some (some s.toList)
  | some _ => none

/-- A text of an object; any other value is as good as missing. -/
def stringField (es : List (String × Value)) (name : String) : Option Text :=
  match es.find? (·.1 = name) with
  | some (_, .string s) => some s.toList
  | _ => none

/-! ## Writing -/

section Writing

variable {readNumber : Text → Option Numeral} {fields : List (String × Option Tree)}

/-- What is written is a field that is there. -/
theorem mem_written {e : String × Tree} (h : e ∈ written fields) : (e.1, some e.2) ∈ fields := by
  obtain ⟨field, hfield, heq⟩ := List.mem_filterMap.mp h
  obtain ⟨value, hvalue, rfl⟩ := Option.map_eq_some_iff.mp heq
  rw [← hvalue]
  exact hfield

/-- The names that are written stand in the order of the fields. -/
theorem written_sublist (fields : List (String × Option Tree)) :
    ((written fields).map Prod.fst).Sublist (fields.map Prod.fst) := by
  induction fields with
  | nil => exact .slnil
  | cons field fields ih =>
      obtain ⟨name, value⟩ := field
      cases value with
      | none => exact ih.cons _
      | some value => exact ih.cons_cons _

/-- Entries are readable if each is. -/
theorem entriesReadable_iff {es : List (String × Tree)} :
    EntriesReadable readNumber es ↔ ∀ e ∈ es, e.2.Readable readNumber := by
  induction es with
  | nil => simp [EntriesReadable]
  | cons e es ih => rw [EntriesReadable, ih, List.forall_mem_cons]

/-- **An object is readable** whose fields have different names and readable values. -/
theorem readable_written (hnames : (fields.map Prod.fst).Nodup)
    (hvalues : ∀ field ∈ fields, ∀ value ∈ field.2, value.Readable readNumber) :
    (Tree.object (written fields)).Readable readNumber := by
  refine ⟨hnames.sublist (written_sublist fields), entriesReadable_iff.mpr fun e he => ?_⟩
  exact hvalues _ (mem_written he) e.2 rfl

end Writing

/-! ## Reading -/

section Reading

variable {fields : List (String × Option Tree)} {name : String}

/-- **What is found under a name.** -/
theorem find?_written (hnames : (fields.map Prod.fst).Nodup) {value : Option Tree}
    (h : (name, value) ∈ fields) :
    (entryValues (written fields)).find? (·.1 = name) = value.map fun t => (name, t.value) := by
  induction fields with
  | nil => cases h
  | cons field fields ih =>
      obtain ⟨other, value'⟩ := field
      rw [List.map_cons, List.nodup_cons] at hnames
      rcases List.mem_cons.mp h with heq | hmem
      · obtain ⟨rfl, rfl⟩ := Prod.mk.inj heq
        cases value with
        | some t => exact List.find?_cons_of_pos (by simp)
        | none =>
            refine List.find?_eq_none.mpr fun e he => ?_
            -- the name is not among the other fields
            rw [entryValues_eq] at he
            obtain ⟨e', he', rfl⟩ := List.mem_map.mp he
            have hname := (written_sublist fields).subset (List.mem_map_of_mem he')
            simp only [decide_eq_true_eq]
            exact fun heq' => hnames.1 (heq' ▸ hname)
      · have hne : other ≠ name := by
          rintro rfl
          exact hnames.1 (List.mem_map.mpr ⟨_, hmem, rfl⟩)
        have ih := ih hnames.2 hmem
        cases value' with
        | none => exact ih
        | some t =>
            refine Eq.trans (List.find?_cons_of_neg ?_) ih
            simpa using hne

/-- A name that no field has. -/
theorem find?_missing (h : name ∉ fields.map Prod.fst) :
    (entryValues (written fields)).find? (·.1 = name) = none := by
  refine List.find?_eq_none.mpr fun e he => ?_
  rw [entryValues_eq] at he
  obtain ⟨e', he', rfl⟩ := List.mem_map.mp he
  have hname := (written_sublist fields).subset (List.mem_map_of_mem he')
  simp only [decide_eq_true_eq]
  exact fun heq => h (heq ▸ hname)

/-- **A text that was written is read back.** -/
theorem textField_written (hnames : (fields.map Prod.fst).Nodup) {field : Option Text}
    (h : (name, field.map textTree) ∈ fields) : textField (entryValues (written fields)) name = some field := by
  rw [textField, find?_written hnames h]
  cases field with
  | none => rfl
  | some s =>
      show some (some (String.ofList s).toList) = _
      rw [String.toList_ofList]

/-- A text that is there. -/
theorem textField_some (hnames : (fields.map Prod.fst).Nodup) {s : Text}
    (h : (name, some (textTree s)) ∈ fields) :
    textField (entryValues (written fields)) name = some (some s) := by
  have hfield : (name, (some s).map textTree) ∈ fields := h
  exact textField_written hnames hfield

/-- A text that no field has. -/
theorem textField_missing (h : name ∉ fields.map Prod.fst) :
    textField (entryValues (written fields)) name = some none := by
  rw [textField, find?_missing h]

theorem stringField_written (hnames : (fields.map Prod.fst).Nodup) {field : Option Text}
    (h : (name, field.map textTree) ∈ fields) : stringField (entryValues (written fields)) name = field := by
  rw [stringField, find?_written hnames h]
  cases field with
  | none => rfl
  | some s =>
      show some (String.ofList s).toList = _
      rw [String.toList_ofList]

end Reading

end YantraRgs.JsonFields
