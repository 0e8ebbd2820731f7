import LibUdp.Cli.Syntax
import LibUdp.Text.Printing
import Mathlib.Data.Char
import Mathlib.Data.Finset.Sort
import Mathlib.Data.List.Lex

/-!
# Arrays and maps as texts

`to_string` of `Array_value` and `Map_value`, and which values `parse` gives back from it.
-/

namespace Cli

open Text

/-- The text of one array element or map value. -/
def ScalarType.writeItem : (t : ScalarType) → t.Carrier → Text
  | .bool, b   => ofInt (if b then 1 else 0)
  | .int, n    => ofInt (Int32.toInt n)
  | .double, x => ofDouble x
  | .string, s => s

/-- `Array_value<T>::to_string`. -/
def ArrayValue.toString (t : ScalarType) (a : ArrayValue t.Carrier) : Text :=
  join ',' (a.values.map t.writeItem)

/-- The elements of a `std::map`, in the order of their keys. -/
def MapValue.entries {α : Type} (m : MapValue α) : List (Text × α) :=
  (m.values.keys.sort (· ≤ ·)).filterMap fun key => (m.values.lookup key).map (key, ·)

/-- `Map_value<std::string, V>::to_string`. -/
def MapValue.toString (t : ScalarType) (m : MapValue t.Carrier) : Text :=
  join ',' (m.entries.map fun (key, value) => key ++ '=' :: t.writeItem value)

/-! ### Elements -/

/-- An element whose text is not cut at a comma and is read back. -/
def ScalarType.Clean (t : ScalarType) (x : t.Carrier) : Prop :=
  ',' ∉ t.writeItem x ∧ t.readItem (trim (t.writeItem x)) = .ok x

lemma clean_string_iff {s : Text} : ScalarType.Clean .string s ↔ ',' ∉ s ∧ Trimmed s := by
  rw [← trim_eq_self_iff]
  exact and_congr_right fun _ => Except.ok.injEq (trim s) s ▸ Iff.rfl

lemma not_mem_ofInt {n : ℤ} {c : Char} (hminus : c ≠ '-') (hdigit : c.isDigit = false) :
    c ∉ ofInt n := by
  intro h
  rcases mem_ofInt h with rfl | h
  · exact hminus rfl
  · rw [hdigit] at h
    cases h

lemma trim_ofInt (n : ℤ) : trim (ofInt n) = ofInt n := by
  have hblank : ∀ c ∈ ofInt n, isBlank c = false := by
    intro c hc
    by_contra hb
    simp only [isBlank, Bool.not_eq_false, Bool.or_eq_true, decide_eq_true_eq] at hb
    rcases hb with rfl | rfl
    · exact not_mem_ofInt (by decide) rfl hc
    · exact not_mem_ofInt (by decide) rfl hc
  rw [trim_eq_self_iff]
  exact ⟨fun c hc => hblank c (List.mem_of_mem_head? hc),
    fun c hc => hblank c (List.mem_of_mem_getLast? hc)⟩

lemma clean_int (n : Int32) : ScalarType.Clean .int n := by
  refine ⟨not_mem_ofInt (by decide) rfl, ?_⟩
  simp only [ScalarType.writeItem, ScalarType.readItem, trim_ofInt, stoi_ofInt]
  rfl

lemma clean_bool (b : Bool) : ScalarType.Clean .bool b := by
  refine ⟨not_mem_ofInt (by decide) rfl, ?_⟩
  cases b <;> rfl

lemma ofInt_ne_nil (n : ℤ) : ofInt n ≠ [] := by
  rw [ofInt]
  split_ifs
  · exact List.cons_ne_nil _ _
  · exact decimal_ne_nil _

/-! ### Arrays -/

namespace ArrayValue

lemma parseItems_writeItem {t : ScalarType} {values : List t.Carrier}
    (h : ∀ x ∈ values, t.Clean x) : parseItems t (values.map t.writeItem) = .ok values := by
  induction values with
  | nil => rfl
  | cons x values ih =>
    rw [List.map_cons, parseItems, (h x List.mem_cons_self).2,
      ih fun y hy => h y (List.mem_cons_of_mem x hy)]
    rfl

lemma parse_toString_of_clean {t : ScalarType} {a : ArrayValue t.Carrier}
    (h : ∀ x ∈ a.values, t.Clean x) (hlast : (a.values.map t.writeItem).getLast? ≠ some []) :
    parse t (toString t a) = some a := by
  have hcomma : ∀ item ∈ a.values.map t.writeItem, ',' ∉ item := by
    intro item hitem
    obtain ⟨x, hx, rfl⟩ := List.mem_map.mp hitem
    exact (h x hx).1
  rw [parse, toString, (items_join_eq_self_iff hcomma).mpr hlast, parseItems_writeItem h]

/-- When no text is empty, an array of clean elements comes back. -/
lemma parse_toString_of_ne_nil {t : ScalarType} (h : ∀ x, t.Clean x ∧ t.writeItem x ≠ [])
    (a : ArrayValue t.Carrier) : parse t (toString t a) = some a := by
  refine parse_toString_of_clean (fun x _ => (h x).1) fun hlast => ?_
  obtain ⟨x, -, hx⟩ := List.mem_map.mp (List.mem_of_getLast? hlast)
  exact (h x).2 hx

end ArrayValue

/-- Arrays of `int` and `bool` come back from their texts. An array of strings does just when it is
empty, or its elements have no commas and no blanks at their ends and the last is not empty. -/
theorem parse_array_toString_iff :
    (∀ a : ArrayValue Int32, ArrayValue.parse .int (ArrayValue.toString .int a) = some a) ∧
      (∀ a : ArrayValue Bool, ArrayValue.parse .bool (ArrayValue.toString .bool a) = some a) ∧
      ∀ a : ArrayValue Text, ArrayValue.parse .string (ArrayValue.toString .string a) = some a ↔
        a.values = [] ∨
          (∀ s ∈ a.values, ',' ∉ s ∧ Trimmed s) ∧ a.values.getLast? ≠ some [] := by
  refine ⟨ArrayValue.parse_toString_of_ne_nil (t := .int) fun n => ⟨clean_int n, ofInt_ne_nil _⟩,
    ArrayValue.parse_toString_of_ne_nil (t := .bool) fun b => ⟨clean_bool b, ofInt_ne_nil _⟩, ?_⟩
  intro a
  have hwrite : a.values.map (ScalarType.writeItem .string) = a.values := List.map_id a.values
  constructor
  · intro h
    rw [or_iff_not_imp_left]
    intro hne
    rw [ArrayValue.parse_string, ArrayValue.toString, hwrite, Option.some.injEq] at h
    have hitems : (items ',' (join ',' a.values)).map trim = a.values :=
      congrArg ArrayValue.values h
    have hclean : ∀ s ∈ a.values, ',' ∉ s ∧ Trimmed s := by
      intro s hs
      rw [← hitems, List.mem_map] at hs
      obtain ⟨item, hitem, rfl⟩ := hs
      exact ⟨fun hc => not_mem_items hitem (mem_of_mem_trim hc), trimmed_trim item⟩
    refine ⟨hclean, fun hlast => ?_⟩
    -- `getline` does not give the empty item at the end
    have hlen := congrArg List.length hitems
    rw [List.length_map, items_join fun s hs => (hclean s hs).1, if_pos hlast,
      List.length_dropLast] at hlen
    have hpos := List.length_pos_iff.mpr hne
    omega
  · intro h
    apply ArrayValue.parse_toString_of_clean (t := .string)
    · intro s hs
      rcases h with hnil | ⟨hclean, -⟩
      · rw [hnil] at hs
        cases hs
      · exact clean_string_iff.mpr (hclean s hs)
    · rw [hwrite]
      rcases h with hnil | ⟨-, hlast⟩
      · simp [hnil]
      · exact hlast

/-! ### Maps -/

namespace MapValue

section entries

variable {α : Type} {m : MapValue α} {key : Text} {value : α}

lemma mem_entries : (key, value) ∈ m.entries ↔ m.values.lookup key = some value := by
  simp only [entries, List.mem_filterMap, Finset.mem_sort, Option.map_eq_some_iff]
  constructor
  · rintro ⟨_, -, _, h, heq⟩
    cases heq
    exact h
  · intro h
    exact ⟨key, Finmap.mem_keys.mpr (Finmap.mem_of_lookup_eq_some h), value, h, rfl⟩

lemma nodup_entries (m : MapValue α) : (m.entries.map Prod.fst).Nodup := by
  have hkeys : m.entries.map Prod.fst = m.values.keys.sort (· ≤ ·) := by
    rw [entries, List.map_filterMap]
    conv_rhs => rw [← List.filterMap_some (l := m.values.keys.sort (· ≤ ·))]
    refine List.filterMap_congr fun k hk => ?_
    obtain ⟨v, hv⟩ := Finmap.mem_iff.mp (Finmap.mem_keys.mp ((Finset.mem_sort _).mp hk))
    simp [hv]
  rw [hkeys]
  exact Finset.sort_nodup _ _

lemma lookup_foldl_insert_of_not_mem {es : List (Text × α)} (h : key ∉ es.map Prod.fst)
    (acc : Finmap fun _ : Text => α) :
    (es.foldl (fun m e => m.insert e.1 e.2) acc).lookup key = acc.lookup key := by
  induction es generalizing acc with
  | nil => rfl
  | cons e es ih =>
    rw [List.map_cons, List.mem_cons, not_or] at h
    rw [List.foldl_cons, ih h.2, Finmap.lookup_insert_of_ne _ h.1]

lemma lookup_foldl_insert_of_mem {es : List (Text × α)} (hnodup : (es.map Prod.fst).Nodup)
    (h : (key, value) ∈ es) (acc : Finmap fun _ : Text => α) :
    (es.foldl (fun m e => m.insert e.1 e.2) acc).lookup key = some value := by
  induction es generalizing acc with
  | nil => cases h
  | cons e es ih =>
    rw [List.map_cons, List.nodup_cons] at hnodup
    rw [List.foldl_cons]
    rcases List.mem_cons.mp h with rfl | h
    · rw [lookup_foldl_insert_of_not_mem hnodup.1, Finmap.lookup_insert]
    · exact ih hnodup.2 h _

/-- Inserting the elements one after the other builds the map up again. -/
lemma foldl_insert_entries (m : MapValue α) :
    m.entries.foldl (fun m e => m.insert e.1 e.2) ∅ = m.values := by
  apply Finmap.ext_lookup
  intro key
  cases hvalue : m.values.lookup key with
  | some value => exact lookup_foldl_insert_of_mem m.nodup_entries (mem_entries.mpr hvalue) ∅
  | none =>
    rw [lookup_foldl_insert_of_not_mem _ ∅, Finmap.lookup_empty]
    intro h
    obtain ⟨⟨_, value⟩, hmem, rfl⟩ := List.mem_map.mp h
    rw [mem_entries.mp hmem] at hvalue
    cases hvalue

lemma pairwise_entries (m : MapValue α) : m.entries.Pairwise fun e e' => e.1 < e'.1 := by
  rw [entries, List.pairwise_filterMap]
  refine (Finset.sortedLT_sort m.values.keys).pairwise.imp fun hlt e he e' he' => ?_
  obtain ⟨-, -, rfl⟩ := Option.map_eq_some_iff.mp he
  obtain ⟨-, -, rfl⟩ := Option.map_eq_some_iff.mp he'
  exact hlt

/-- The order of the elements does not depend on the order in which they are inserted. -/
lemma entries_foldl_insert (es : List (Text × α)) {es' : List (Text × α)} (hperm : es'.Perm es)
    (hsorted : es'.Pairwise fun e e' => e.1 < e'.1) :
    entries ⟨es.foldl (fun m e => m.insert e.1 e.2) ∅⟩ = es' := by
  have hdistinct : ∀ l : List (Text × α), l.Pairwise (fun e e' => e.1 < e'.1) → l.Nodup :=
    fun l hl => hl.imp fun hlt heq => hlt.ne (congrArg Prod.fst heq)
  have hnodup : (es.map Prod.fst).Nodup :=
    (hperm.map Prod.fst).nodup_iff.mp ((List.pairwise_map.mpr hsorted).imp fun hlt => hlt.ne)
  refine List.Perm.eq_of_pairwise (fun _ _ _ _ hlt hgt => absurd hgt (lt_asymm hlt))
    (pairwise_entries _) hsorted ?_
  refine (List.perm_ext_iff_of_nodup (hdistinct _ (pairwise_entries _))
    (hdistinct _ hsorted)).mpr fun (key, value) => ?_
  rw [mem_entries, hperm.mem_iff]
  constructor
  · intro hvalue
    by_cases hkey : key ∈ es.map Prod.fst
    · obtain ⟨⟨_, value'⟩, hmem, rfl⟩ := List.mem_map.mp hkey
      rw [lookup_foldl_insert_of_mem hnodup hmem] at hvalue
      exact Option.some.inj hvalue ▸ hmem
    · rw [lookup_foldl_insert_of_not_mem hkey, Finmap.lookup_empty] at hvalue
      cases hvalue
  · exact fun hmem => lookup_foldl_insert_of_mem hnodup hmem ∅

end entries

/-- A key that is not cut at a separator or trimmed. -/
def CleanKey (key : Text) : Prop := ',' ∉ key ∧ '=' ∉ key ∧ Trimmed key

variable {t : ScalarType}

lemma parsePairs_entries {es : List (Text × t.Carrier)}
    (hkeys : ∀ e ∈ es, CleanKey e.1) (hvalues : ∀ e ∈ es, t.Clean e.2)
    (acc : Finmap fun _ : Text => t.Carrier) :
    parsePairs t acc (es.map fun (key, value) => key ++ '=' :: t.writeItem value) =
      .ok (es.foldl (fun m e => m.insert e.1 e.2) acc) := by
  induction es generalizing acc with
  | nil => rfl
  | cons e es ih =>
    obtain ⟨-, hsep, htrim⟩ := hkeys e List.mem_cons_self
    have hmem : '=' ∈ e.1 ++ '=' :: t.writeItem e.2 := by simp
    rw [List.map_cons, parsePairs, if_pos hmem, after_append_cons hsep, before_append_cons hsep,
      (hvalues e List.mem_cons_self).2, trim_eq_self_iff.mpr htrim]
    exact ih (fun e' he => hkeys e' (List.mem_cons_of_mem e he))
      (fun e' he => hvalues e' (List.mem_cons_of_mem e he)) _

/-- A map of clean keys and values comes back. -/
lemma parse_toString_of_clean {m : MapValue t.Carrier} (hkeys : ∀ key ∈ m.values, CleanKey key)
    (hvalues : ∀ key value, m.values.lookup key = some value → t.Clean value) :
    parse t (toString t m) = some m := by
  have hkeys' : ∀ e ∈ m.entries, CleanKey e.1 := by
    rintro ⟨key, value⟩ he
    exact hkeys key (Finmap.mem_of_lookup_eq_some (mem_entries.mp he))
  have hvalues' : ∀ e ∈ m.entries, t.Clean e.2 := by
    rintro ⟨key, value⟩ he
    exact hvalues key value (mem_entries.mp he)
  have hcomma : ∀ item ∈ m.entries.map fun (key, value) => key ++ '=' :: t.writeItem value,
      ',' ∉ item := by
    intro item hitem
    obtain ⟨e, he, rfl⟩ := List.mem_map.mp hitem
    simp only [List.mem_append, List.mem_cons, not_or]
    exact ⟨(hkeys' e he).1, by decide, (hvalues' e he).1⟩
  have hlast : (m.entries.map fun (key, value) => key ++ '=' :: t.writeItem value).getLast? ≠
      some [] := by
    intro hlast
    obtain ⟨e, -, he⟩ := List.mem_map.mp (List.mem_of_getLast? hlast)
    simp at he
  rw [parse, toString, (items_join_eq_self_iff hcomma).mpr hlast,
    parsePairs_entries hkeys' hvalues', foldl_insert_entries]

/-- What `parse` has put into the map, it has read from a piece of the text. -/
lemma exists_piece_of_parse {input key : Text} {m : MapValue t.Carrier} {value : t.Carrier}
    (h : parse t input = some m) (hvalue : m.values.lookup key = some value) :
    ∃ piece, ',' ∉ piece ∧ key = trim (before '=' piece) ∧
      t.readItem (trim (after '=' piece)) = .ok value := by
  obtain ⟨text, htext, hread⟩ := (lookup_parse_eq_some_iff h).mp hvalue
  obtain ⟨pre, post, hsplit, -⟩ := List.lookup_eq_some_iff.mp htext
  have hmem : (key, text) ∈ pairs input := by
    rw [← List.mem_reverse, hsplit]
    exact List.mem_append_right pre List.mem_cons_self
  obtain ⟨piece, hpiece, hpair⟩ := List.mem_filterMap.mp hmem
  rw [pair?] at hpair
  split_ifs at hpair
  cases hpair
  exact ⟨piece, not_mem_of_mem_splitOn hpiece, rfl, hread⟩

/-- Every key that `parse` gives is clean. -/
lemma cleanKey_of_parse {input key : Text} {m : MapValue t.Carrier}
    (h : parse t input = some m) (hkey : key ∈ m.values) : CleanKey key := by
  obtain ⟨value, hvalue⟩ := Finmap.mem_iff.mp hkey
  obtain ⟨piece, hpiece, rfl, -⟩ := exists_piece_of_parse h hvalue
  refine ⟨fun hc => ?_, fun hc => ?_, trimmed_trim _⟩
  · exact hpiece ((List.takeWhile_prefix _).mem (mem_of_mem_trim hc))
  · exact not_mem_before '=' piece (mem_of_mem_trim hc)

/-- Every string that `parse` gives is clean. -/
lemma clean_of_parse {input key : Text} {m : MapValue Text} {value : Text}
    (h : parse .string input = some m) (hvalue : m.values.lookup key = some value) :
    ',' ∉ value ∧ Trimmed value := by
  obtain ⟨piece, hpiece, -, hread⟩ := exists_piece_of_parse (t := .string) h hvalue
  cases hread
  refine ⟨fun hc => hpiece ?_, trimmed_trim _⟩
  exact (List.dropWhile_sublist _).mem (List.mem_of_mem_drop (mem_of_mem_trim hc))

/-- When the values are clean, the keys decide. -/
lemma parse_toString_iff_keys (h : ∀ x, t.Clean x) (m : MapValue t.Carrier) :
    parse t (toString t m) = some m ↔ ∀ key ∈ m.values, CleanKey key := by
  constructor
  · intro hparse key hkey
    exact cleanKey_of_parse hparse hkey
  · intro hkeys
    exact parse_toString_of_clean hkeys fun _ value _ => h value

end MapValue

/-- A map comes back from its text just when its keys have no separators and no blanks at their
ends and, for a map of strings, its values have no commas and no blanks at their ends. -/
theorem parse_map_toString_iff :
    (∀ m : MapValue Text, MapValue.parse .string (MapValue.toString .string m) = some m ↔
        (∀ key ∈ m.values, ',' ∉ key ∧ '=' ∉ key ∧ Trimmed key) ∧
          ∀ key value, m.values.lookup key = some value → ',' ∉ value ∧ Trimmed value) ∧
      (∀ m : MapValue Int32, MapValue.parse .int (MapValue.toString .int m) = some m ↔
        ∀ key ∈ m.values, ',' ∉ key ∧ '=' ∉ key ∧ Trimmed key) ∧
      ∀ m : MapValue Bool, MapValue.parse .bool (MapValue.toString .bool m) = some m ↔
        ∀ key ∈ m.values, ',' ∉ key ∧ '=' ∉ key ∧ Trimmed key := by
  refine ⟨?_, MapValue.parse_toString_iff_keys (t := .int) clean_int,
    MapValue.parse_toString_iff_keys (t := .bool) clean_bool⟩
  intro m
  constructor
  · intro h
    exact ⟨fun key hkey => MapValue.cleanKey_of_parse (t := .string) h hkey,
      fun key value hvalue => MapValue.clean_of_parse h hvalue⟩
  · rintro ⟨hkeys, hvalues⟩
    exact MapValue.parse_toString_of_clean (t := .string) hkeys fun key value hvalue =>
      clean_string_iff.mpr (hvalues key value hvalue)

end Cli
