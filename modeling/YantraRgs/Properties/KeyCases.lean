import Mathlib.Data.List.Basic
import Mathlib.Data.List.Nodup
import YantraRgs.Db.Jsonb
import YantraRgs.OperatorSdk.KeyCase

/-! # Keys come back from snake case

Both conversions of a key undo what the other did and nothing else. So a key comes back from snake case
exactly when no underscore of it stands before a small letter, and then no other such key is converted to
the same.

* **`camelChars_snake`**, **`snake_camelChars`** — a conversion after the other is the conversion alone.
* **`toCamel_toSnake_iff`**, **`toSnake_toCamel_iff`** — the keys that come back.
* **`transformKeys_undo`** — values come back when their keys do.
* **`fromSnakeCase_toSnakeCase`** — JSON trees whose keys hold no underscore.
* **`toSnakeCase_fromSnakeCase`** — JSON trees in snake case. -/

namespace YantraRgs.KeyCase

/-! ## Characters -/

/-- What holds of the twenty-six capital letters holds of every capital letter. -/
theorem of_isUpper {p : Char → Prop} (hp : ∀ i < 26, p (Char.ofNat (65 + i))) {c : Char}
    (h : c.isUpper = true) : p c := by
  have hc : 65 ≤ c.toNat ∧ c.toNat ≤ 90 := of_decide_eq_true h
  have hi := hp (c.toNat - 65) (by omega)
  rwa [Nat.add_sub_cancel' hc.1, Char.ofNat_toNat] at hi

/-- What holds of the twenty-six small letters holds of every small letter. -/
theorem of_isLower {p : Char → Prop} (hp : ∀ i < 26, p (Char.ofNat (97 + i))) {c : Char}
    (h : c.isLower = true) : p c := by
  have hc : 97 ≤ c.toNat ∧ c.toNat ≤ 122 :=
    (Bool.and_eq_true_iff.mp h).imp of_decide_eq_true of_decide_eq_true
  have hi := hp (c.toNat - 97) (by omega)
  rwa [Nat.add_sub_cancel' hc.1, Char.ofNat_toNat] at hi

theorem toUpper_toLower {c : Char} (h : c.isUpper = true) : c.toLower.toUpper = c :=
  of_isUpper (p := fun c => c.toLower.toUpper = c) (by decide) h

theorem toLower_toUpper {c : Char} (h : c.isLower = true) : c.toUpper.toLower = c :=
  of_isLower (p := fun c => c.toUpper.toLower = c) (by decide) h

theorem isLower_toLower {c : Char} (h : c.isUpper = true) : c.toLower.isLower = true :=
  of_isUpper (p := fun c => c.toLower.isLower = true) (by decide) h

theorem isUpper_toUpper {c : Char} (h : c.isLower = true) : c.toUpper.isUpper = true :=
  of_isLower (p := fun c => c.toUpper.isUpper = true) (by decide) h

theorem not_isUpper {c : Char} (h : c.isLower = true) : ¬ c.isUpper = true :=
  of_isLower (p := fun c => ¬ c.isUpper = true) (by decide) h

theorem snakeChar_of_isUpper {c : Char} (h : c.isUpper = true) : snakeChar c = ['_', c.toLower] :=
  if_pos h

theorem snakeChar_of_not_isUpper {c : Char} (h : ¬ c.isUpper = true) : snakeChar c = [c] := if_neg h

/-! ## Keys -/

/-- An underscore before a small letter. -/
theorem camelChars_of_isLower {c : Char} (h : c.isLower = true) (cs : Text) :
    camelChars ('_' :: c :: cs) = c.toUpper :: camelChars cs := by
  rw [camelChars, if_pos h]

/-- A character that stays: no underscore, or one that no small letter follows. -/
theorem camelChars_cons {c : Char} {cs : Text} (h : c = '_' → ∀ d ∈ cs.head?, ¬ d.isLower = true) :
    camelChars (c :: cs) = c :: camelChars cs := by
  by_cases hc : c = '_'
  · subst hc
    cases cs with
    | nil => rfl
    | cons d cs => rw [camelChars, if_neg (h rfl d rfl)]
  · rw [camelChars]
    intro d ds hunderscore
    exact absurd hunderscore hc

/-- What follows an underscore in snake case starts with a small letter only where it did before. -/
theorem head?_snake {c : Char} (h : ¬ c.isLower = true) (cs : Text) :
    ∀ d ∈ ((c :: cs).flatMap snakeChar).head?, ¬ d.isLower = true := by
  intro d hd
  rw [List.flatMap_cons] at hd
  by_cases hc : c.isUpper = true
  · rw [snakeChar_of_isUpper hc] at hd
    obtain rfl := Option.some.inj hd
    decide
  · rw [snakeChar_of_not_isUpper hc] at hd
    obtain rfl := Option.some.inj hd
    exact h

/-- **Camel case after snake case** is camel case alone. -/
theorem camelChars_snake (cs : Text) : camelChars (cs.flatMap snakeChar) = camelChars cs := by
  induction cs using camelChars.induct with
  | case1 c cs hlower ih =>
      have hupper := not_isUpper hlower
      rw [List.flatMap_cons, List.flatMap_cons, snakeChar_of_not_isUpper hupper]
      show camelChars ('_' :: c :: cs.flatMap snakeChar) = _
      rw [camelChars_of_isLower hlower, camelChars_of_isLower hlower, ih]
  | case2 c cs hlower ih =>
      rw [List.flatMap_cons]
      show camelChars ('_' :: (c :: cs).flatMap snakeChar) = _
      rw [camelChars_cons fun _ => head?_snake hlower cs, ih, camelChars, if_neg hlower]
  | case3 c cs hlast ih =>
      -- an underscore that is left is the last character
      have hend : c = '_' → cs = [] := by
        intro hc
        cases cs with
        | nil => rfl
        | cons d cs => exact absurd rfl (hlast d cs hc)
      have hcamel : camelChars (c :: cs) = c :: camelChars cs := camelChars_cons fun hc => by simp [hend hc]
      rw [List.flatMap_cons, hcamel, ← ih]
      by_cases hupper : c.isUpper = true
      · rw [snakeChar_of_isUpper hupper]
        show camelChars ('_' :: c.toLower :: cs.flatMap snakeChar) = _
        rw [camelChars_of_isLower (isLower_toLower hupper), toUpper_toLower hupper]
      · rw [snakeChar_of_not_isUpper hupper]
        exact camelChars_cons fun hc => by simp [hend hc]
  | case4 => rfl

/-- **Snake case after camel case** is snake case alone. -/
theorem snake_camelChars (cs : Text) : (camelChars cs).flatMap snakeChar = cs.flatMap snakeChar := by
  induction cs using camelChars.induct with
  | case1 c cs hlower ih =>
      rw [camelChars_of_isLower hlower, List.flatMap_cons, ih,
        snakeChar_of_isUpper (isUpper_toUpper hlower), toLower_toUpper hlower, List.flatMap_cons,
        List.flatMap_cons, snakeChar_of_not_isUpper (not_isUpper hlower)]
      rfl
  | case2 c cs hlower ih => rw [camelChars, if_neg hlower, List.flatMap_cons, ih, ← List.flatMap_cons]
  | case3 c cs hlast ih =>
      rw [camelChars, List.flatMap_cons, ih, List.flatMap_cons]
      exact hlast
  | case4 => rfl

/-- No underscore stands before a small letter. -/
def Unbroken (cs : Text) : Prop := cs.IsChain fun c d => ¬ (c = '_' ∧ d.isLower = true)

/-- The texts that camel case leaves alone. -/
theorem camelChars_eq_self_iff (cs : Text) : camelChars cs = cs ↔ Unbroken cs := by
  unfold Unbroken
  induction cs using camelChars.induct with
  | case1 c cs hlower ih =>
      rw [camelChars_of_isLower hlower, List.isChain_cons_cons]
      constructor
      · intro h
        have hupper := isUpper_toUpper hlower
        rw [(List.cons.inj h).1] at hupper
        exact absurd hupper (by decide)
      · rintro ⟨hnot, -⟩
        exact absurd ⟨rfl, hlower⟩ hnot
  | case2 c cs hlower ih =>
      rw [camelChars, if_neg hlower, List.isChain_cons_cons, List.cons.injEq, ih]
      exact and_congr_left fun _ => iff_of_true rfl fun h => hlower h.2
  | case3 c cs hlast ih =>
      rw [camelChars, List.cons.injEq, eq_self, true_and, ih]
      · cases cs with
        | nil => simp
        | cons d cs =>
            rw [List.isChain_cons_cons]
            exact (and_iff_right fun h => hlast d cs h.1 rfl).symm
      · exact hlast
  | case4 => simp [camelChars]

/-- **The keys that come back from snake case.** -/
theorem toCamel_toSnake_iff {key : String} : toCamel (toSnake key) = key ↔ Unbroken key.toList := by
  rw [toCamel, toSnake, String.toList_ofList, camelChars_snake, ← camelChars_eq_self_iff,
    ← String.toList_inj, String.toList_ofList]

/-- **The keys that come back from camel case** have no capitals. -/
theorem toSnake_toCamel_iff {key : String} :
    toSnake (toCamel key) = key ↔ ∀ c ∈ key.toList, ¬ c.isUpper = true := by
  rw [toCamel, toSnake, String.toList_ofList, snake_camelChars, ← String.toList_inj,
    String.toList_ofList]
  generalize key.toList = cs
  induction cs with
  | nil => simp
  | cons c cs ih =>
      rw [List.flatMap_cons, List.forall_mem_cons]
      by_cases hc : c.isUpper = true
      · rw [snakeChar_of_isUpper hc]
        constructor
        · intro h
          rw [← (List.cons.inj h).1] at hc
          exact absurd hc (by decide)
        · exact fun h => absurd hc h.1
      · rw [snakeChar_of_not_isUpper hc, List.singleton_append, List.cons.injEq, eq_self, true_and, ih,
          and_iff_right hc]

/-- A key without underscores. -/
theorem unbroken_of_notMem {cs : Text} (h : '_' ∉ cs) : Unbroken cs := by
  induction cs with
  | nil => exact .nil
  | cons c cs ih =>
      rw [List.mem_cons, not_or] at h
      cases cs with
      | nil => exact .singleton c
      | cons d cs => exact List.isChain_cons_cons.mpr ⟨fun hbreak => h.1 hbreak.1.symm, ih h.2⟩

/-! ## Values -/

mutual

/-- The objects of a value, at every depth. -/
def objects : Value → List (List (String × Value))
  | .array vs => elementObjects vs
  | .object es => es :: entryObjects es
  | _ => []

/-- The objects in the elements of an array. -/
def elementObjects : List Value → List (List (String × Value))
  | [] => []
  | v :: vs => objects v ++ elementObjects vs

/-- The objects in the entries of an object. -/
def entryObjects : List (String × Value) → List (List (String × Value))
  | [] => []
  | e :: es => objects e.2 ++ entryObjects es

end

mutual

/-- The objects of a JSON value have different keys. -/
theorem nodup_of_mem_objects : ∀ {v : Value}, v.isJson = true →
    ∀ es ∈ objects v, (es.map Prod.fst).Nodup
  | .array vs, h => by
      rw [Value.isJson] at h
      exact nodup_of_mem_elementObjects h
  | .object es, h => by
      obtain ⟨hnodup, hmembers⟩ := isJson_object_iff.mp h
      exact List.forall_mem_cons.mpr ⟨hnodup,
        nodup_of_mem_entryObjects (membersAreJson_iff.mpr hmembers)⟩
  | .null, _ | .bool _, _ | .number _, _ | .string _, _ | .bigint _, _ | .date _, _ =>
      fun _ h => (nomatch h)

theorem nodup_of_mem_elementObjects : ∀ {vs : List Value}, areJson vs = true →
    ∀ es ∈ elementObjects vs, (es.map Prod.fst).Nodup
  | [], _ => fun _ h => (nomatch h)
  | v :: vs, h => by
      rw [areJson, Bool.and_eq_true] at h
      rw [elementObjects, List.forall_mem_append]
      exact ⟨nodup_of_mem_objects h.1, nodup_of_mem_elementObjects h.2⟩

theorem nodup_of_mem_entryObjects : ∀ {es : List (String × Value)}, membersAreJson es = true →
    ∀ fs ∈ entryObjects es, (fs.map Prod.fst).Nodup
  | [], _ => fun _ h => (nomatch h)
  | e :: es, h => by
      rw [membersAreJson, Bool.and_eq_true] at h
      rw [entryObjects, List.forall_mem_append]
      exact ⟨nodup_of_mem_objects h.1, nodup_of_mem_entryObjects h.2⟩

end

/-- The keys that are assigned. -/
theorem map_fst_transformEntries (convert : String → String) (es : List (String × Value)) :
    (transformEntries convert es).map Prod.fst = es.map fun e => convert e.1 := by
  induction es with
  | nil => rfl
  | cons e es ih => rw [transformEntries, List.map_cons, ih, List.map_cons]

/-- Entries are assigned as they stand where their keys differ. -/
theorem foldl_assign {es : List (String × Value)} (hnodup : (es.map Prod.fst).Nodup)
    (hproto : "__proto__" ∉ es.map Prod.fst) : es.foldl assign [] = es := by
  have hassign : es.foldl assign [] = es.foldl JsonParse.setEntry [] := by
    refine List.foldl_ext _ _ _ fun out e he => ?_
    rw [assign, if_neg]
    rintro heq
    exact hproto (heq ▸ List.mem_map_of_mem he)
  rw [hassign, JsonParse.foldl_setEntry es [] hnodup, List.nil_append]

section Undo

variable {f g : String → String} {es : List (String × Value)}

/-- **Entries that come back**: a conversion of keys is undone by another one, and none of the keys is the
prototype's. -/
structure Undoes (f g : String → String) (es : List (String × Value)) : Prop where
  nodup : (es.map Prod.fst).Nodup
  back : ∀ e ∈ es, g (f e.1) = e.1
  away : ∀ e ∈ es, f e.1 ≠ "__proto__"
  home : ∀ e ∈ es, e.1 ≠ "__proto__"

/-- Keys that differ become keys that differ. -/
theorem Undoes.inj (h : Undoes f g es) :
    ∀ k ∈ es.map Prod.fst, ∀ l ∈ es.map Prod.fst, f k = f l → k = l := by
  intro k hk l hl hkl
  obtain ⟨d, hd, rfl⟩ := List.mem_map.mp hk
  obtain ⟨e, he, rfl⟩ := List.mem_map.mp hl
  rw [← h.back d hd, hkl, h.back e he]

/-- The converted entries are assigned as they stand. -/
theorem Undoes.assigned (h : Undoes f g es) :
    (transformEntries f es).foldl assign [] = transformEntries f es := by
  refine foldl_assign ?_ ?_
  · rw [map_fst_transformEntries]
    have hnodup := h.nodup.map_on h.inj
    rwa [List.map_map] at hnodup
  · rw [map_fst_transformEntries]
    intro hproto
    obtain ⟨e, he, heq⟩ := List.mem_map.mp hproto
    exact h.away e he heq

/-- So are the entries that come back. -/
theorem Undoes.restored (h : Undoes f g es) : es.foldl assign [] = es := by
  refine foldl_assign h.nodup fun hproto => ?_
  obtain ⟨e, he, heq⟩ := List.mem_map.mp hproto
  exact h.home e he heq

/-- A plain object is converted to a plain one. -/
theorem Undoes.isPlain (h : Undoes f g es) (hg : g "constructor" = "constructor")
    (hplain : isPlain es = true) : isPlain (transformEntries f es) = true := by
  have hkeys : ∀ k ∈ (transformEntries f es).map Prod.fst, k ≠ "constructor" := by
    rw [map_fst_transformEntries]
    intro k hk hconstructor
    obtain ⟨e, he, rfl⟩ := List.mem_map.mp hk
    have hback := h.back e he
    rw [hconstructor, hg] at hback
    exact of_decide_eq_true (List.all_eq_true.mp hplain e he) hback.symm
  exact List.all_eq_true.mpr fun e he => decide_eq_true (hkeys e.1 (List.mem_map_of_mem he))

/-- What becomes of an object. -/
theorem Undoes.transformKeys_object (h : Undoes f g es) : transformKeys f (.object es) =
    .object (if KeyCase.isPlain es then transformEntries f es else es) := by
  rw [transformKeys, h.assigned]
  split <;> rfl

mutual

/-- **A value comes back** when the entries of all its objects do. -/
theorem transformKeys_undo (hg : g "constructor" = "constructor") : ∀ {v : Value},
    (∀ es ∈ objects v, Undoes f g es) → transformKeys g (transformKeys f v) = v
  | .array vs, h => by
      rw [transformKeys, transformKeys, transformElements_undo hg h]
  | .object es, h => by
      obtain ⟨hes, hinner⟩ := List.forall_mem_cons.mp h
      rw [hes.transformKeys_object]
      split
      · next hplain =>
          rw [transformKeys, if_pos (hes.isPlain hg hplain), transformEntries_undo hg hinner hes.back,
            hes.restored]
      · next hplain => rw [transformKeys, if_neg hplain]
  | .null, _ | .bool _, _ | .number _, _ | .string _, _ | .bigint _, _ | .date _, _ => rfl

theorem transformElements_undo (hg : g "constructor" = "constructor") : ∀ {vs : List Value},
    (∀ es ∈ elementObjects vs, Undoes f g es) → transformElements g (transformElements f vs) = vs
  | [], _ => rfl
  | v :: vs, h => by
      rw [elementObjects, List.forall_mem_append] at h
      rw [transformElements, transformElements, transformKeys_undo hg h.1, transformElements_undo hg h.2]

theorem transformEntries_undo (hg : g "constructor" = "constructor") : ∀ {es : List (String × Value)},
    (∀ fs ∈ entryObjects es, Undoes f g fs) → (∀ e ∈ es, g (f e.1) = e.1) →
      transformEntries g (transformEntries f es) = es
  | [], _, _ => rfl
  | e :: es, h, hback => by
      rw [entryObjects, List.forall_mem_append] at h
      obtain ⟨hkey, hback⟩ := List.forall_mem_cons.mp hback
      rw [transformEntries, transformEntries, transformKeys_undo hg h.1,
        transformEntries_undo hg h.2 hback, hkey]

end

end Undo

/-! ## Keys without underscores -/

/-- Entries whose keys hold no underscore come back from snake case. -/
theorem undoes_toSnake {es : List (String × Value)} (hnodup : (es.map Prod.fst).Nodup)
    (hkeys : ∀ e ∈ es, '_' ∉ e.1.toList) : Undoes toSnake toCamel es := by
  have hback : ∀ e ∈ es, toCamel (toSnake e.1) = e.1 := fun e he =>
    toCamel_toSnake_iff.mpr (unbroken_of_notMem (hkeys e he))
  refine ⟨hnodup, hback, fun e he hproto => ?_, fun e he hproto => ?_⟩
  · have hkey := hback e he
    rw [hproto] at hkey
    exact hkeys e he (hkey ▸ by decide)
  · exact hkeys e he (hproto ▸ by decide)

/-- The entries of an object stay apart: keys that differ become keys that differ, and every entry has
one of its own. -/
structure StaysApart (es : List (String × Value)) : Prop where
  keys : ∀ k ∈ es.map Prod.fst, ∀ l ∈ es.map Prod.fst, toSnake k = toSnake l → k = l
  entries : ∃ fs, toSnakeCase (.object es) = .object fs ∧ fs.length = es.length ∧
    (fs.map Prod.fst).Nodup

theorem Undoes.staysApart {es : List (String × Value)} (h : Undoes toSnake toCamel es) :
    StaysApart es := by
  refine ⟨h.inj, _, h.transformKeys_object, ?_, ?_⟩
  · split
    · rw [← List.length_map Prod.fst, map_fst_transformEntries, List.length_map]
    · rfl
  · split
    · rw [map_fst_transformEntries]
      have hnodup := h.nodup.map_on h.inj
      rwa [List.map_map] at hnodup
    · exact h.nodup

/-- **Key cases come back**: a JSON tree whose keys hold no underscore is what its snake case is in camel
case, and no two entries of an object in it are merged. -/
theorem fromSnakeCase_toSnakeCase {v : Value} (hjson : v.isJson = true)
    (hkeys : ∀ es ∈ objects v, ∀ e ∈ es, '_' ∉ e.1.toList) :
    fromSnakeCase (toSnakeCase v) = v ∧ ∀ es ∈ objects v, StaysApart es := by
  have hundoes : ∀ es ∈ objects v, Undoes toSnake toCamel es := fun es hes =>
    undoes_toSnake (nodup_of_mem_objects hjson es hes) (hkeys es hes)
  exact ⟨transformKeys_undo (by decide) hundoes, fun es hes => (hundoes es hes).staysApart⟩

namespace Sample

/-- A capital in front, capitals in a row, digits, and an object that is not converted. -/
def tree : Value := .object [("RoundID", .array [.object [("tx2Uuid", .null), ("7", .bool true)]]),
  ("gameURL", .object [("constructor", .null), ("playerRef", .null)])]

end Sample

/-- Such a tree comes back. -/
theorem fromSnakeCase_toSnakeCase_tree :
    fromSnakeCase (toSnakeCase Sample.tree) = Sample.tree ∧
      ∀ es ∈ objects Sample.tree, StaysApart es :=
  fromSnakeCase_toSnakeCase (by decide +kernel) (by decide +kernel)

/-! ## Keys without capitals -/

/-- A key in snake case: it has no capitals, and it is not the prototype's. -/
structure InSnakeCase (key : String) : Prop where
  small : ∀ c ∈ key.toList, ¬ c.isUpper = true
  own : key ≠ "__proto__"

/-- Entries whose keys have no capitals come back from camel case. -/
theorem undoes_toCamel {es : List (String × Value)} (hnodup : (es.map Prod.fst).Nodup)
    (hkeys : ∀ e ∈ es, InSnakeCase e.1) : Undoes toCamel toSnake es := by
  have hback : ∀ e ∈ es, toSnake (toCamel e.1) = e.1 := fun e he =>
    toSnake_toCamel_iff.mpr (hkeys e he).small
  refine ⟨hnodup, hback, fun e he hproto => ?_, fun e he => (hkeys e he).own⟩
  have hkey := hback e he
  rw [hproto] at hkey
  exact (hkeys e he).own (hkey ▸ by decide)

/-- **A JSON tree in snake case comes back** from camel case. -/
theorem toSnakeCase_fromSnakeCase {v : Value} (hjson : v.isJson = true)
    (hkeys : ∀ es ∈ objects v, ∀ e ∈ es, InSnakeCase e.1) : toSnakeCase (fromSnakeCase v) = v :=
  transformKeys_undo (by decide) fun es hes =>
    undoes_toCamel (nodup_of_mem_objects hjson es hes) (hkeys es hes)

/-- A handler that answers what it reads answers what came in. -/
theorem snakeToCamelMiddleware_id {v : Value} (hjson : v.isJson = true)
    (hkeys : ∀ es ∈ objects v, ∀ e ∈ es, InSnakeCase e.1) : snakeToCamelMiddleware id v = v := by
  cases v with
  | array vs => exact toSnakeCase_fromSnakeCase hjson hkeys
  | object es => exact toSnakeCase_fromSnakeCase hjson hkeys
  | _ => rfl

end YantraRgs.KeyCase
