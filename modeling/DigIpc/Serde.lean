/-
The `serde` data model at JSON: what `#[derive(Serialize, Deserialize)]` and
`serde_json` do, as a library.

Three things are kept apart, because the code keeps them apart:

| | what it is |
|---|---|
| `Json` | a JSON text, parsed: the fields of an object in text order, duplicates included |
| `Value` | `serde_json::Value`: the same tree with every object a map (sorted, last duplicate wins) |
| `JsonText` | `to_string` / `from_str`, between a `String` and a `Json` |

A derived `Deserialize` visits a `Json`: `from_str` hands it the text's own
tree, `from_value` hands it a `Value`'s tree. Both go through the same visitor,
so one decoder per type serves both. The visitor of a struct takes an object
(each declared field at most once, unknown fields ignored) *or an array* (the
fields by position); a decoder that forgot the second form would call frames
malformed that the code accepts.

The text codec is third-party code and stays a parameter. `JsonText.Faithful` is
what `serde_json` promises of it; `JsonText.Lossless` is the codec that also
reads back every float and any nesting.
-/
import Mathlib.Algebra.Group.Int.Defs
import Mathlib.Data.String.Basic
import Mathlib.Data.List.Sort

set_option autoImplicit false

namespace Serde

/-! ## JSON trees -/

/-- A finite `f64`, by its bits. Nothing computes with it. -/
structure F64 where
  bits : UInt64
  finite : bits.toNat / 2 ^ 52 % 2 ^ 11 ≠ 2 ^ 11 - 1
  deriving DecidableEq

/-- `serde_json::Number`: the three representations are disjoint, a
non-negative integer is never a `NegInt`. -/
inductive Number
  | PosInt (n : UInt64)
  | NegInt (n : Int) (neg : n < 0) (min : -2 ^ 63 ≤ n)
  | Float (x : F64)
  deriving DecidableEq

/-- A parsed JSON text. -/
inductive Json
  | null
  | bool (b : Bool)
  | number (n : Number)
  | string (s : String)
  | array (xs : List Json)
  | object (fields : List (String × Json))

/-- Put a field into a sorted map unless its key is already there. -/
def insertAbsent (k : String) (v : Json) : List (String × Json) → List (String × Json)
  | [] => [(k, v)]
  | (k', v') :: m =>
    if k < k' then (k, v) :: (k', v') :: m
    else if k = k' then (k', v') :: m
    else (k', v') :: insertAbsent k v m

mutual

/-- Reading a tree as a `Value`: every object becomes a `BTreeMap`. -/
def Json.normalize : Json → Json
  | .null => .null
  | .bool b => .bool b
  | .number n => .number n
  | .string s => .string s
  | .array xs => .array (normalizeItems xs)
  | .object fields => .object (normalizeFields fields)

/-- The items of an array, each read as a `Value`. -/
def normalizeItems : List Json → List Json
  | [] => []
  | x :: xs => x.normalize :: normalizeItems xs

/-- The fields of an object, as a sorted map. The map of the later fields is
built first and keeps its entries, so the last duplicate wins. -/
def normalizeFields : List (String × Json) → List (String × Json)
  | [] => []
  | (k, v) :: m => insertAbsent k v.normalize (normalizeFields m)

end

/-- The keys of a map are strictly increasing. -/
def SortedKeys (m : List (String × Json)) : Prop := m.Pairwise fun a b => a.1 < b.1

theorem mem_insertAbsent {k : String} {v : Json} {m : List (String × Json)}
    {a : String × Json} (h : a ∈ insertAbsent k v m) : a = (k, v) ∨ a ∈ m := by
  induction m with
  | nil => simpa [insertAbsent] using h
  | cons b m ih =>
      simp only [insertAbsent] at h
      split_ifs at h
      · simpa using h
      · exact Or.inr h
      · rcases List.mem_cons.mp h with rfl | h
        · exact Or.inr List.mem_cons_self
        · exact (ih h).imp_right (List.mem_cons_of_mem _)

theorem insertAbsent_sorted {k : String} {v : Json} {m : List (String × Json)}
    (h : SortedKeys m) : SortedKeys (insertAbsent k v m) := by
  induction m with
  | nil => simp [insertAbsent, SortedKeys]
  | cons b m ih =>
      obtain ⟨hb, hm⟩ := List.pairwise_cons.mp h
      simp only [insertAbsent]
      split_ifs with hlt heq
      · refine List.pairwise_cons.mpr ⟨fun a ha => ?_, h⟩
        rcases List.mem_cons.mp ha with rfl | ha
        · exact hlt
        · exact hlt.trans (hb a ha)
      · exact h
      · have hkb : b.1 < k := lt_of_le_of_ne (not_lt.mp hlt) (Ne.symm heq)
        refine List.pairwise_cons.mpr ⟨fun a ha => ?_, ih hm⟩
        rcases mem_insertAbsent ha with rfl | ha
        · exact hkb
        · exact hb a ha

theorem normalizeFields_sorted (m : List (String × Json)) : SortedKeys (normalizeFields m) := by
  induction m with
  | nil => exact List.Pairwise.nil
  | cons b m ih => exact insertAbsent_sorted ih

/-- Below every key of a map, insertion is at the front. -/
theorem insertAbsent_below {k : String} {v : Json} {m : List (String × Json)}
    (h : ∀ a ∈ m, k < a.1) : insertAbsent k v m = (k, v) :: m := by
  cases m with
  | nil => rfl
  | cons b m => simp [insertAbsent, h b]

/-- A sorted map whose values are already values is left as it is. -/
theorem normalizeFields_of_sorted {m : List (String × Json)} (hs : SortedKeys m)
    (hv : ∀ a ∈ m, a.2.normalize = a.2) : normalizeFields m = m := by
  induction m with
  | nil => rfl
  | cons b m ih =>
      obtain ⟨hb, hm⟩ := List.pairwise_cons.mp hs
      rw [normalizeFields, ih hm fun a ha => hv a (List.mem_cons_of_mem _ ha),
        hv b List.mem_cons_self, insertAbsent_below hb]

/-- What a map has under each key once a field is put into it. -/
theorem lookup_insertAbsent {k : String} {v : Json} {m : List (String × Json)} (h : SortedKeys m)
    (name : String) : (insertAbsent k v m).lookup name
      = if name = k then some ((m.lookup k).getD v) else m.lookup name := by
  induction m with
  | nil =>
    rw [insertAbsent, List.lookup_cons, List.lookup_nil, List.lookup_nil]
    by_cases hname : name = k
    · rw [if_pos hname, beq_iff_eq.mpr hname]
      rfl
    · rw [if_neg hname, beq_false_of_ne hname]
  | cons b m ih =>
    obtain ⟨k', v'⟩ := b
    obtain ⟨hb, hm⟩ := List.pairwise_cons.mp h
    rw [insertAbsent]
    by_cases hlt : k < k'
    · -- nothing at or after the insertion point has this key
      rw [if_pos hlt]
      have habsent : ((k', v') :: m).lookup k = none := by
        rw [List.lookup_eq_none_iff]
        intro p hp
        rw [bne_iff_ne]
        rcases List.mem_cons.mp hp with rfl | hp
        · exact ne_of_lt hlt
        · exact ne_of_lt (hlt.trans (hb p hp))
      rw [habsent, List.lookup_cons]
      by_cases hname : name = k
      · rw [if_pos hname, beq_iff_eq.mpr hname]
        rfl
      · rw [if_neg hname, beq_false_of_ne hname]
    · rw [if_neg hlt]
      by_cases heq : k = k'
      · subst heq
        rw [if_pos rfl]
        by_cases hname : name = k
        · rw [if_pos hname, hname, List.lookup_cons_self, Option.getD_some]
        · rw [if_neg hname]
      · rw [if_neg heq, List.lookup_cons, ih hm, List.lookup_cons, List.lookup_cons,
          beq_false_of_ne heq]
        by_cases hname : name = k
        · rw [if_pos hname, if_pos hname, hname, beq_false_of_ne heq]
        · rw [if_neg hname, if_neg hname]

/-- With distinct keys, a map has under each key what the fields had. -/
theorem lookup_normalizeFields (m : List (String × Json)) (hnodup : (m.map Prod.fst).Nodup)
    (name : String) : (normalizeFields m).lookup name = (m.lookup name).map Json.normalize := by
  induction m generalizing name with
  | nil => rfl
  | cons b m ih =>
    obtain ⟨k, v⟩ := b
    obtain ⟨hk, hm⟩ := List.nodup_cons.mp hnodup
    have habsent : m.lookup k = none := by
      rw [List.lookup_eq_none_iff]
      intro p hp
      rw [bne_iff_ne]
      intro heq
      exact hk (List.mem_map.mpr ⟨p, hp, heq.symm⟩)
    rw [normalizeFields, lookup_insertAbsent (normalizeFields_sorted m), ih hm, ih hm, habsent,
      List.lookup_cons]
    by_cases hname : name = k
    · rw [if_pos hname, beq_iff_eq.mpr hname]
      rfl
    · rw [if_neg hname, beq_false_of_ne hname]

mutual

/-- Reading a value as a value changes nothing. -/
theorem Json.normalize_normalize : ∀ j : Json, j.normalize.normalize = j.normalize
  | .null => rfl
  | .bool _ => rfl
  | .number _ => rfl
  | .string _ => rfl
  | .array xs => by
      rw [Json.normalize, Json.normalize, normalizeItems_normalizeItems]
  | .object fields => by
      rw [Json.normalize, Json.normalize,
        normalizeFields_of_sorted (normalizeFields_sorted fields) (normalizeFields_values fields)]

theorem normalizeItems_normalizeItems :
    ∀ xs : List Json, normalizeItems (normalizeItems xs) = normalizeItems xs
  | [] => rfl
  | x :: xs => by
      rw [normalizeItems, normalizeItems, x.normalize_normalize, normalizeItems_normalizeItems]

theorem normalizeFields_values :
    ∀ m : List (String × Json), ∀ a ∈ normalizeFields m, a.2.normalize = a.2
  | [] => by simp [normalizeFields]
  | (k, v) :: m => by
      intro a ha
      rcases mem_insertAbsent ha with rfl | ha
      · exact v.normalize_normalize
      · exact normalizeFields_values m a ha

end

/-- `serde_json::Value`: a tree whose objects are maps. -/
structure Value where
  tree : Json
  normal : tree.normalize = tree

/-- Read any tree as a value. -/
def Value.of (j : Json) : Value := ⟨j.normalize, j.normalize_normalize⟩

/-- `Value::Null`. -/
def Value.Null : Value := ⟨.null, rfl⟩

/-- `Value::as_u64`: the integer, when the value is a non-negative one. -/
def Value.as_u64 (v : Value) : Option UInt64 :=
  match v.tree with
  | .number (.PosInt n) => some n
  | _ => none

/-- A value read back from its own tree. -/
@[simp] theorem Value.of_tree (v : Value) : Value.of v.tree = v := by
  cases v with
  | mk tree normal => simp [Value.of, normal]

/-! ## Derived decoders

`readFields` is the visitor of a derived struct; the rest are the decoders of
its field types and what `#[serde(default)]` does to a missing field. -/

/-- What the derived visitor of a struct with the given fields finds in a tree:
the tree under each field name, if any. `none` is a decoding error: a
duplicate field, an array that is too long, or a tree of the wrong type. -/
def readFields (names : List String) : Json → Option (String → Option Json)
  | .object fields =>
    if ∀ name ∈ names, (fields.map Prod.fst).count name ≤ 1
    then some fun name => fields.lookup name
    else none
  | .array xs =>
    if xs.length ≤ names.length then some fun name => xs[names.idxOf name]? else none
  | _ => none

/-- **A derived decoder reads a map as it reads the fields.** -/
theorem readFields_normalize (names : List String) (m : List (String × Json))
    (hnodup : (m.map Prod.fst).Nodup) :
    readFields names (Json.object m).normalize
      = some fun name => (m.lookup name).map Json.normalize := by
  have hcount : ∀ name ∈ names, ((normalizeFields m).map Prod.fst).count name ≤ 1 := by
    intro name _
    refine List.nodup_iff_count_le_one.mp ?_ name
    exact (List.pairwise_map.mpr (normalizeFields_sorted m)).imp ne_of_lt
  rw [Json.normalize, readFields, if_pos hcount]
  congr 1
  funext name
  exact lookup_normalizeFields m hnodup name

/-- A decoder reads only the fields it declares. -/
theorem lookup_filter_keys (p : String → Bool) (m : List (String × Json)) {name : String}
    (hname : p name = true) : (m.filter fun field => p field.1).lookup name = m.lookup name := by
  induction m with
  | nil => rfl
  | cons b m ih =>
    by_cases hp : p b.1 = true
    · rw [List.filter_cons, if_pos hp, List.lookup_cons, List.lookup_cons, ih]
    · have hne : name ≠ b.1 := by
        rintro rfl
        exact hp hname
      rw [List.filter_cons, if_neg hp, List.lookup_cons, beq_false_of_ne hne, ih]

theorem count_filter_keys (p : String → Bool) (m : List (String × Json)) {name : String}
    (hname : p name = true) :
    ((m.filter fun field => p field.1).map Prod.fst).count name = (m.map Prod.fst).count name := by
  have hmap : (m.filter fun field => p field.1).map Prod.fst = (m.map Prod.fst).filter p :=
    (List.filter_map ..).symm
  rw [hmap]
  exact List.count_filter hname

/-- A field without a default. -/
def required {α : Type} (decode : Json → Option α) (field : Option Json) : Option α :=
  field.bind decode

/-- A field under `#[serde(default)]`. -/
def defaulted {α : Type} (default : α) (decode : Json → Option α) : Option Json → Option α
  | none => some default
  | some j => decode j

/-- `String`. -/
def string : Json → Option String
  | .string s => some s
  | _ => none

/-- `Vec<T>`. -/
def array {α : Type} (decode : Json → Option α) : Json → Option (List α)
  | .array xs => xs.mapM decode
  | _ => none

/-- `i64`: an integer in range. -/
def i64 : Json → Option Int64
  | .number (.PosInt n) => if n.toNat < 2 ^ 63 then some (Int64.ofInt n.toNat) else none
  | .number (.NegInt n _ _) => some (Int64.ofInt n)
  | _ => none

/-- `Option<T>`: `null` is `None`. -/
def option {α : Type} (decode : Json → Option α) : Json → Option (Option α)
  | .null => some none
  | j => (decode j).map some

/-- `Value`: any tree. -/
def value (j : Json) : Option Value := some (Value.of j)

/-! ## Encoders -/

/-- A `u64`, written as a number. -/
def ofU64 (n : UInt64) : Json := .number (.PosInt n)

/-- An `i64`, written as a number. -/
def ofI64 (n : Int64) : Json :=
  if h : n.toInt < 0 then .number (.NegInt n.toInt h n.le_toInt)
  else .number (.PosInt (UInt64.ofNat n.toInt.toNat))

/-- A `Vec<String>`. -/
def ofStrings (xs : List String) : Json := .array (xs.map .string)

/-- An `Option<Value>`: `None` is `null`. -/
def ofOption : Option Value → Json
  | none => .null
  | some v => v.tree

/-! ## What the decoders read back

One small lemma for each decoder, so that a decoder of a record is read off its
fields. -/

@[simp] theorem required_some {α : Type} (decode : Json → Option α) (j : Json) :
    required decode (some j) = decode j := rfl

@[simp] theorem defaulted_some {α : Type} (default : α) (decode : Json → Option α) (j : Json) :
    defaulted default decode (some j) = decode j := rfl

@[simp] theorem defaulted_none {α : Type} (default : α) (decode : Json → Option α) :
    defaulted default decode none = some default := rfl

@[simp] theorem string_string (s : String) : string (.string s) = some s := rfl

@[simp] theorem normalize_string (s : String) : (Json.string s).normalize = .string s := by
  rw [Json.normalize]

@[simp] theorem normalize_ofStrings (xs : List String) : (ofStrings xs).normalize = ofStrings xs := by
  have hitems : normalizeItems (xs.map .string) = xs.map .string := by
    induction xs with
    | nil => rw [List.map_nil, normalizeItems]
    | cons x xs ih => rw [List.map_cons, normalizeItems, ih, normalize_string]
  unfold ofStrings
  rw [Json.normalize, hitems]

@[simp] theorem array_ofStrings (xs : List String) : array string (ofStrings xs) = some xs := by
  unfold ofStrings array
  induction xs with
  | nil => rfl
  | cons x xs ih =>
    simp only [List.map_cons, List.mapM_cons] at ih ⊢
    rw [ih]
    rfl

/-- An integer is read back. -/
@[simp] theorem i64_ofI64 (n : Int64) : i64 (ofI64 n) = some n := by
  unfold ofI64
  by_cases hneg : n.toInt < 0
  · rw [dif_pos hneg, i64, Int64.ofInt_toInt]
  · have hlt : n.toInt < 2 ^ 63 := n.toInt_lt
    have hnat : (UInt64.ofNat n.toInt.toNat).toNat = n.toInt.toNat := by
      rw [UInt64.toNat_ofNat']
      omega
    have hsmall : (UInt64.ofNat n.toInt.toNat).toNat < 2 ^ 63 := by omega
    rw [dif_neg hneg, i64, if_pos hsmall, hnat, Int.toNat_of_nonneg (by omega), Int64.ofInt_toInt]

/-- What an `Option<Value>` makes of a value: `null` is absent. -/
def nullable (v : Value) : Option Value :=
  match v.tree with
  | .null => none
  | _ => some v

@[simp] theorem option_value (j : Json) : option value j = some (nullable (Value.of j)) := by
  unfold nullable Value.of
  cases j <;> simp [option, value, Value.of, Json.normalize]

@[simp] theorem normalize_tree (v : Value) : v.tree.normalize = v.tree := v.normal

@[simp] theorem normalize_ofOption (v : Option Value) : (ofOption v).normalize = ofOption v := by
  cases v with
  | none => rw [ofOption, Json.normalize]
  | some v => rw [ofOption, normalize_tree]

/-- `None` and `Some(null)` are written, and so read, alike. -/
@[simp] theorem option_value_ofOption (v : Option Value) :
    option value (ofOption v) = some (v.bind nullable) := by
  cases v with
  | none => rfl
  | some v => rw [ofOption, option_value, Value.of_tree, Option.bind_some]

/-! ## The text codec -/

/-- `serde_json::to_string` and the parsing half of `serde_json::from_str`:
`none` is a text that is not JSON. -/
structure JsonText where
  to_string : Json → String
  from_str : String → Option Json

/-- The text codec reads back what it writes. -/
structure JsonText.Lossless (T : JsonText) : Prop where
  from_str_to_string : ∀ j, T.from_str (T.to_string j) = some j

/-- How deep objects and arrays may be nested in a text that `serde_json` reads. -/
def MAX_NESTING : ℕ := 127

/-- No float anywhere, and objects and arrays nested at most so deep. -/
def Json.Plain : ℕ → Json → Prop
  | _, .null => True
  | _, .bool _ => True
  | _, .number (.PosInt _) => True
  | _, .number (.NegInt _ _ _) => True
  | _, .number (.Float _) => False
  | _, .string _ => True
  | 0, .array _ => False
  | 0, .object _ => False
  | depth + 1, .array xs => ∀ x ∈ xs, x.Plain depth
  | depth + 1, .object fields => ∀ field ∈ fields, field.2.Plain depth

/-- A field that was read back: under the same key, and unchanged if it is plain. -/
def Reread (field field' : String × Json) : Prop :=
  field'.1 = field.1 ∧ (field.2.Plain MAX_NESTING → field'.2 = field.2)

/-- **What the text codec reads back.** A float may lose its last digit, and what
is nested too deep is not read at all. A plain tree reads back, and the text of
any object, if it reads, has the same keys and the same plain values. -/
structure JsonText.Faithful (T : JsonText) : Prop where
  plain : ∀ j : Json, j.Plain MAX_NESTING → T.from_str (T.to_string j) = some j
  object : ∀ (fields : List (String × Json)) (j : Json),
    T.from_str (T.to_string (.object fields)) = some j →
      ∃ fields', j = .object fields' ∧ List.Forall₂ Reread fields fields'

theorem JsonText.Lossless.faithful {T : JsonText} (hT : T.Lossless) : T.Faithful where
  plain j _ := hT.from_str_to_string j
  object fields j hread := by
    rw [hT.from_str_to_string] at hread
    obtain rfl := Option.some.inj hread
    exact ⟨fields, rfl, List.forall₂_same.mpr fun field _ => ⟨rfl, fun _ => rfl⟩⟩

/-- A key that was not written is not read. -/
theorem lookup_reread_none {fields fields' : List (String × Json)}
    (hfields : List.Forall₂ Reread fields fields') {name : String}
    (hnone : fields.lookup name = none) : fields'.lookup name = none := by
  induction hfields with
  | nil => rfl
  | @cons field field' fields fields' hfield _ ih =>
    rw [List.lookup_cons] at hnone ⊢
    rw [hfield.1]
    by_cases hname : name = field.1
    · rw [beq_iff_eq.mpr hname] at hnone
      cases hnone
    · rw [beq_false_of_ne hname] at hnone ⊢
      exact ih hnone

/-- A plain field is read as it was written. -/
theorem lookup_reread {fields fields' : List (String × Json)}
    (hfields : List.Forall₂ Reread fields fields') {name : String} {j : Json}
    (hlookup : fields.lookup name = some j) (hplain : j.Plain MAX_NESTING) :
    fields'.lookup name = some j := by
  induction hfields with
  | nil => cases hlookup
  | @cons field field' fields fields' hfield _ ih =>
    obtain ⟨hkey, hvalue⟩ := hfield
    rw [List.lookup_cons] at hlookup ⊢
    rw [hkey]
    by_cases hname : name = field.1
    · rw [beq_iff_eq.mpr hname] at hlookup ⊢
      obtain rfl := Option.some.inj hlookup
      exact congrArg some (hvalue hplain)
    · rw [beq_false_of_ne hname] at hlookup ⊢
      exact ih hlookup

@[simp] theorem plain_string (depth : ℕ) (s : String) : (Json.string s).Plain depth := by
  simp [Json.Plain]

@[simp] theorem tree_ofU64 (n : UInt64) : (Value.of (ofU64 n)).tree = ofU64 n := rfl

@[simp] theorem plain_ofU64 (depth : ℕ) (n : UInt64) : (ofU64 n).Plain depth := by
  simp [ofU64, Json.Plain]

@[simp] theorem plain_ofI64 (depth : ℕ) (n : Int64) : (ofI64 n).Plain depth := by
  unfold ofI64
  split <;> simp [Json.Plain]

@[simp] theorem plain_object (depth : ℕ) (fields : List (String × Json)) :
    (Json.object fields).Plain (depth + 1) ↔ ∀ field ∈ fields, field.2.Plain depth := by
  rw [Json.Plain]

@[simp] theorem plain_ofStrings (depth : ℕ) (xs : List String) :
    (ofStrings xs).Plain (depth + 1) := by
  simp [ofStrings, Json.Plain]

/-- Objects and arrays: the trees whose text is bracketed. -/
def Json.Bracketed : Json → Prop
  | .array _ => True
  | .object _ => True
  | _ => False

/-- The text of an object or an array is complete only at its closing bracket:
cut anywhere before that, it is not JSON. -/
structure JsonText.Delimited (T : JsonText) : Prop where
  from_str_cut : ∀ (cut rest : String) (j : Json), T.from_str (cut ++ rest) = some j →
    j.Bracketed → (∃ c ∈ rest.toList, ¬ c.isWhitespace) → T.from_str cut = none

/-- Blanks after its closing bracket are not a part of it. -/
structure JsonText.Padded (T : JsonText) : Prop where
  from_str_pad : ∀ (text blanks : String) (j : Json), T.from_str (text ++ blanks) = some j →
    j.Bracketed → (∀ c ∈ blanks.toList, c.isWhitespace) → T.from_str text = some j

/-- Only bracketed text has fields. -/
theorem bracketed_of_readFields {names : List String} {j : Json} {field : String → Option Json}
    (h : readFields names j = some field) : j.Bracketed := by
  cases j with
  | array xs => trivial
  | object fields => trivial
  | _ => cases h

end Serde
