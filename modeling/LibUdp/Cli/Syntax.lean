import LibUdp.Cli.Conversion
import LibUdp.Text.Join

/-!
# The syntax of lists and maps

What `Array_value::parse` and `Map_value::parse` make of a text, in terms of its pieces between the
commas. Blanks around a piece do not matter, except that `getline` does not give an empty piece at
the end, while one of blanks is an item like any other.
-/

namespace Cli

open Text

lemma ScalarType.readItem_int_eq_ok_iff {item : Text} {n : Int32} :
    ScalarType.readItem .int item = .ok n ↔ ∃ pos, stoi item = .ok (n, pos) := by
  rw [ScalarType.readItem]
  cases stoi item with
  | error e => simp [Except.map]
  | ok r =>
    obtain ⟨m, pos⟩ := r
    simp [Except.map]

/-! ### Arrays -/

/-- The text of an array item with blanks around it. -/
structure PaddedItem where
  left : Text
  text : Text
  right : Text
  blank_left : Blank left
  blank_right : Blank right
  comma_not_mem : ',' ∉ text

namespace PaddedItem

def padded (p : PaddedItem) : Text := p.left ++ p.text ++ p.right

lemma trim_padded (p : PaddedItem) : trim p.padded = trim p.text :=
  trim_append p.blank_left p.blank_right p.text

lemma comma_not_mem_padded (p : PaddedItem) : ',' ∉ p.padded := by
  rw [padded, List.mem_append, List.mem_append]
  rintro ((h | h) | h)
  · exact not_mem_of_blank p.blank_left rfl h
  · exact p.comma_not_mem h
  · exact not_mem_of_blank p.blank_right rfl h

lemma text_eq_nil {p : PaddedItem} (h : p.padded = []) : p.text = [] := by
  rw [padded, List.append_eq_nil_iff, List.append_eq_nil_iff] at h
  exact h.1.2

end PaddedItem

namespace ArrayValue

variable {t : ScalarType}

/-- The loop looks at the trimmed items only. -/
lemma parseItems_congr {xs ys : List Text} (h : xs.map trim = ys.map trim) :
    parseItems t xs = parseItems t ys := by
  induction xs generalizing ys with
  | nil =>
    rw [List.map_nil, eq_comm, List.map_eq_nil_iff] at h
    rw [h]
  | cons x xs ih =>
    cases ys with
    | nil => cases h
    | cons y ys =>
      rw [List.map_cons, List.map_cons, List.cons.injEq] at h
      rw [parseItems, parseItems, h.1, ih h.2]

lemma parseItems_concat (xs : List Text) (item : Text) :
    parseItems t (xs ++ [item]) = do
      let values ← parseItems t xs
      let value ← t.readItem (trim item)
      return values ++ [value] := by
  induction xs with
  | nil =>
    rw [List.nil_append, parseItems, parseItems]
    cases t.readItem (trim item) <;> rfl
  | cons x xs ih =>
    rw [List.cons_append, parseItems, parseItems, ih]
    cases t.readItem (trim x) <;> cases parseItems t xs <;> cases t.readItem (trim item) <;> rfl

lemma parse_congr {s s' : Text} (h : (items ',' s).map trim = (items ',' s').map trim) :
    parse t s = parse t s' := by
  rw [parse, parse, parseItems_congr h]

/-- One more item gives the same result only where both fail. -/
lemma parse_eq_of_concat_iff {s s' item : Text} {xs ys : List Text}
    (hs : items ',' s = xs ++ [item]) (hs' : items ',' s' = ys) (h : xs.map trim = ys.map trim) :
    parse t s = parse t s' ↔ ∃ y ∈ ys, Fails (t.readItem (trim y)) := by
  rw [← parseItems_fails_iff, parse, parse, hs, hs', parseItems_concat, parseItems_congr h]
  cases parseItems t ys with
  | error e => simp [Fails, bind, Except.bind]
  | ok values => cases t.readItem (trim item) <;> simp [Fails, bind, Except.bind, pure, Except.pure]

lemma items_join_map_concat {f : PaddedItem → Text} (hf : ∀ p, ',' ∉ f p) (ps : List PaddedItem)
    (last : PaddedItem) : items ',' (join ',' ((ps ++ [last]).map f)) =
      if f last = [] then ps.map f else ps.map f ++ [f last] := by
  have hcomma : ∀ item ∈ (ps ++ [last]).map f, ',' ∉ item := by
    rw [List.forall_mem_map]
    exact fun p _ => hf p
  rw [items_join hcomma, List.map_append, List.map_singleton, List.getLast?_concat,
    List.dropLast_concat]
  simp only [Option.some.injEq]

/-- Blanks around the items do not matter, unless they make an empty last item into one of blanks
and there is no other item that cannot be converted. -/
theorem parse_padded_iff (t : ScalarType) (ps : List PaddedItem) (last : PaddedItem) :
    parse t (join ',' ((ps ++ [last]).map PaddedItem.padded)) =
        parse t (join ',' ((ps ++ [last]).map PaddedItem.text)) ↔
      last.text ≠ [] ∨ last.padded = [] ∨ ∃ p ∈ ps, Fails (t.readItem (trim p.text)) := by
  have htext := items_join_map_concat PaddedItem.comma_not_mem ps last
  have hpadded := items_join_map_concat PaddedItem.comma_not_mem_padded ps last
  have htrim : (ps.map PaddedItem.padded).map trim = (ps.map PaddedItem.text).map trim := by
    simp only [List.map_map, Function.comp_def, PaddedItem.trim_padded]
  by_cases hlast : last.text = []
  · rw [if_pos hlast] at htext
    by_cases hblank : last.padded = []
    · -- both texts end with an empty item, which is not given
      rw [if_pos hblank] at hpadded
      refine iff_of_true (parse_congr ?_) (.inr (.inl hblank))
      rw [hpadded, htext, htrim]
    · rw [if_neg hblank] at hpadded
      rw [parse_eq_of_concat_iff hpadded htext htrim]
      simp only [List.mem_map, exists_exists_and_eq_and, hlast, hblank, ne_eq, not_true_eq_false,
        false_or]
  · have hblank : last.padded ≠ [] := fun h => hlast (PaddedItem.text_eq_nil h)
    rw [if_neg hlast] at htext
    rw [if_neg hblank] at hpadded
    refine iff_of_true (parse_congr ?_) (.inl hlast)
    rw [hpadded, htext, List.map_append, List.map_append, htrim, List.map_singleton,
      List.map_singleton, last.trim_padded]

/-- A blank after the last comma is one more item, and no integer. -/
theorem parse_padded_ne :
    parse .string (join ',' [" a".toList, " ".toList]) = some ⟨["a".toList, []]⟩ ∧
      parse .string (join ',' ["a".toList, []]) = some ⟨["a".toList]⟩ ∧
      parse .int (join ',' ["1".toList, " ".toList]) = none ∧
      parse .int (join ',' ["1".toList, []]) = some ⟨[1]⟩ ∧
      ¬ ∀ t, t ≠ .double → ∀ ps : List PaddedItem, ps ≠ [] →
        parse t (join ',' (ps.map PaddedItem.padded)) =
          parse t (join ',' (ps.map PaddedItem.text)) := by
  refine ⟨rfl, rfl, rfl, rfl, ?_⟩
  intro h
  have hblank : parse .string (join ',' [" ".toList]) = parse .string (join ',' [[]]) :=
    h .string (by decide) [⟨[], [], [' '], by simp [Blank], by simp [Blank, isBlank],
      List.not_mem_nil⟩] (List.cons_ne_nil _ _)
  exact absurd hblank (by decide)

end ArrayValue

/-! ### Maps -/

namespace MapValue

/-- The key and value of a piece that has a `=`: the trimmed texts around the first one. -/
def pair? (piece : Text) : Option (Text × Text) :=
  if '=' ∈ piece then some (trim (before '=' piece), trim (after '=' piece)) else none

/-- The keys and values of the pieces between commas, from left to right. -/
def pairs (input : Text) : List (Text × Text) := (input.splitOn ',').filterMap pair?

/-- The same piece with other blanks around it or, in a pair, around the key and the value. -/
inductive Reblanked : Text → Text → Prop where
  | around {l r : Text} (hl : Blank l) (hr : Blank r) (piece : Text) :
      Reblanked piece (l ++ piece ++ r)
  | inside {l r l' r' : Text} (hl : Blank l) (hr : Blank r) (hl' : Blank l') (hr' : Blank r')
      (key value : Text) (hkey : '=' ∉ key) :
      Reblanked (key ++ '=' :: value) ((l ++ key ++ r) ++ '=' :: (l' ++ value ++ r'))

variable {t : ScalarType}

/-- `parsePairs` on pairs that are cut and trimmed. -/
def readPairs (t : ScalarType) (values : Finmap fun _ : Text => t.Carrier) :
    List (Text × Text) → Except ConversionError (Finmap fun _ : Text => t.Carrier)
  | []           => .ok values
  | pair :: rest => do
    let value ← t.readItem pair.2
    readPairs t (values.insert pair.1 value) rest

lemma parsePairs_eq_readPairs (values : Finmap fun _ : Text => t.Carrier) (xs : List Text) :
    parsePairs t values xs = readPairs t values (xs.filterMap pair?) := by
  induction xs generalizing values with
  | nil => rfl
  | cons x xs ih =>
    rw [parsePairs, List.filterMap_cons, pair?]
    split_ifs with heq
    · rw [readPairs]
      simp only [ih]
    · exact ih values

lemma parse_eq_readPairs (t : ScalarType) (input : Text) :
    parse t input = (readPairs t ∅ (pairs input)).toOption.map MapValue.mk := by
  rw [parse, parsePairs_eq_readPairs, filterMap_items rfl, ← pairs]
  cases readPairs t ∅ (pairs input) <;> rfl

lemma exists_readPairs_iff {values : Finmap fun _ : Text => t.Carrier} {ps : List (Text × Text)} :
    (∃ m, readPairs t values ps = .ok m) ↔ ∀ p ∈ ps, ∃ x, t.readItem p.2 = .ok x := by
  induction ps generalizing values with
  | nil => simp [readPairs]
  | cons p ps ih =>
    rw [readPairs, List.forall_mem_cons]
    cases hread : t.readItem p.2 with
    | error e => simp [bind, Except.bind]
    | ok value => simpa [bind, Except.bind] using ih

/-- The last pair with a key counts. -/
lemma lookup_readPairs {values m : Finmap fun _ : Text => t.Carrier} {ps : List (Text × Text)}
    (h : readPairs t values ps = .ok m) (key : Text) :
    (m.lookup key).map Except.ok =
      ((ps.reverse.lookup key).map t.readItem).or ((values.lookup key).map Except.ok) := by
  induction ps generalizing values with
  | nil =>
    cases h
    rfl
  | cons p ps ih =>
    rw [readPairs] at h
    cases hread : t.readItem p.2 with
    | error e => simp [hread, bind, Except.bind] at h
    | ok value =>
      rw [hread] at h
      rw [ih h, List.reverse_cons, List.lookup_append, Option.map_or, Option.or_assoc]
      congr 1
      by_cases hkey : key = p.1
      · rw [hkey, Finmap.lookup_insert, List.lookup_cons_self]
        simp [hread]
      · rw [Finmap.lookup_insert_of_ne _ hkey, List.lookup_cons, beq_false_of_ne hkey]
        rfl

lemma parse_eq_some_iff {input : Text} {m : MapValue t.Carrier} :
    parse t input = some m ↔ readPairs t ∅ (pairs input) = .ok m.values := by
  rw [parse_eq_readPairs]
  cases readPairs t ∅ (pairs input) with
  | error e => simp [Except.toOption]
  | ok values =>
    cases m
    simp [Except.toOption]

lemma lookup_parse_eq_some_iff {input : Text} {m : MapValue t.Carrier}
    (h : parse t input = some m) {key : Text} {x : t.Carrier} :
    m.values.lookup key = some x ↔
      ∃ value, (pairs input).reverse.lookup key = some value ∧ t.readItem value = .ok x := by
  have hlookup := lookup_readPairs (parse_eq_some_iff.mp h) key
  rw [Finmap.lookup_empty, Option.map_none, Option.or_none] at hlookup
  rw [← Option.map_eq_some_iff, ← hlookup, Option.map_eq_some_iff]
  simp only [Except.ok.injEq, exists_eq_right]

lemma isSome_parse_iff {input : Text} :
    (parse t input).isSome ↔ ∀ p ∈ pairs input, ∃ x, t.readItem p.2 = .ok x := by
  rw [← exists_readPairs_iff, parse_eq_readPairs]
  cases readPairs t ∅ (pairs input) <;> simp [Except.toOption]

/-! Blanks do not matter. -/

lemma pair?_append_cons {key : Text} (h : '=' ∉ key) (value : Text) :
    pair? (key ++ '=' :: value) = some (trim key, trim value) := by
  have hmem : '=' ∈ key ++ '=' :: value := List.mem_append_right _ List.mem_cons_self
  rw [pair?, if_pos hmem, before_append_cons h, after_append_cons h]

namespace Reblanked

variable {x y : Text} (h : Reblanked x y)

include h

lemma comma_not_mem (hx : ',' ∉ x) : ',' ∉ y := by
  cases h with
  | around hl hr =>
    simp only [List.mem_append, not_or]
    exact ⟨⟨not_mem_of_blank hl rfl, hx⟩, not_mem_of_blank hr rfl⟩
  | inside hl hr hl' hr' key value hkey =>
    simp only [List.mem_append, List.mem_cons, not_or] at hx ⊢
    exact ⟨⟨⟨not_mem_of_blank hl rfl, hx.1⟩, not_mem_of_blank hr rfl⟩, hx.2.1,
      ⟨not_mem_of_blank hl' rfl, hx.2.2⟩, not_mem_of_blank hr' rfl⟩

lemma pair?_eq : pair? y = pair? x := by
  cases h with
  | @around l r hl hr =>
    by_cases heq : '=' ∈ x
    · -- the blanks are at the ends of the key and of the value
      have hkey : '=' ∉ l ++ before '=' x := by
        rw [List.mem_append, not_or]
        exact ⟨not_mem_of_blank hl rfl, not_mem_before '=' x⟩
      have hcut : l ++ x ++ r = (l ++ before '=' x) ++ '=' :: (after '=' x ++ r) := by
        conv_lhs => rw [← before_append_after heq]
        simp only [List.append_assoc, List.cons_append]
      have hleft := trim_append hl (r := []) (by simp [Blank]) (before '=' x)
      have hright := trim_append (l := []) (by simp [Blank]) hr (after '=' x)
      rw [List.append_nil] at hleft
      rw [List.nil_append] at hright
      rw [hcut, pair?_append_cons hkey, hleft, hright, pair?, if_pos heq]
    · have hnone : '=' ∉ l ++ x ++ r := by
        simp only [List.mem_append, not_or]
        exact ⟨⟨not_mem_of_blank hl rfl, heq⟩, not_mem_of_blank hr rfl⟩
      rw [pair?, pair?, if_neg heq, if_neg hnone]
  | inside hl hr hl' hr' key value hkey =>
    rw [pair?_append_cons hkey, pair?_append_cons, trim_append hl hr, trim_append hl' hr']
    simp only [List.mem_append, not_or]
    exact ⟨⟨not_mem_of_blank hl rfl, hkey⟩, not_mem_of_blank hr rfl⟩

end Reblanked

lemma comma_not_mem_of_forall₂ {xs ys : List Text} (h : List.Forall₂ Reblanked xs ys)
    (hxs : ∀ x ∈ xs, ',' ∉ x) : ∀ y ∈ ys, ',' ∉ y := by
  induction h with
  | nil => exact hxs
  | cons hxy _ ih =>
    rw [List.forall_mem_cons] at hxs ⊢
    exact ⟨hxy.comma_not_mem hxs.1, ih hxs.2⟩

lemma filterMap_pair?_of_forall₂ {xs ys : List Text} (h : List.Forall₂ Reblanked xs ys) :
    ys.filterMap pair? = xs.filterMap pair? := by
  induction h with
  | nil => rfl
  | cons hxy _ ih => rw [List.filterMap_cons, List.filterMap_cons, hxy.pair?_eq, ih]

lemma pairs_join_of_forall₂ {input : Text} {pieces : List Text}
    (h : List.Forall₂ Reblanked (input.splitOn ',') pieces) :
    pairs (join ',' pieces) = pairs input := by
  have hne : pieces ≠ [] := by
    rintro rfl
    exact List.splitOn_ne_nil ',' input (List.forall₂_nil_right_iff.mp h)
  have hcomma := comma_not_mem_of_forall₂ h fun x => not_mem_of_mem_splitOn
  rw [pairs, splitOn_join hcomma hne, filterMap_pair?_of_forall₂ h, ← pairs]

/-- The meaning of the map syntax: a map of strings holds the last value for each key, a map of
integers holds what `std::stoi` makes of it, provided that it accepts all values. Blanks do not
matter. -/
theorem parse_meaning (input : Text) :
    (∃ m, parse .string input = some m ∧
      ∀ key, m.values.lookup key = (pairs input).reverse.lookup key) ∧
    ((parse .int input).isSome ↔ ∀ p ∈ pairs input, ∃ r, stoi p.2 = .ok r) ∧
    (∀ m, parse .int input = some m → ∀ key n, m.values.lookup key = some n ↔
      ∃ value pos, (pairs input).reverse.lookup key = some value ∧ stoi value = .ok (n, pos)) ∧
    ∀ t pieces, List.Forall₂ Reblanked (input.splitOn ',') pieces →
      parse t (join ',' pieces) = parse t input := by
  refine ⟨?_, ?_, ?_, ?_⟩
  · obtain ⟨m, hm⟩ := exists_parse_string input
    refine ⟨m, hm, fun key => Option.ext fun value => ?_⟩
    rw [lookup_parse_eq_some_iff (t := .string) hm]
    simp only [ScalarType.readItem, Except.ok.injEq, exists_eq_right]
  · rw [isSome_parse_iff]
    refine forall₂_congr fun p _ => ?_
    rw [Prod.exists]
    exact exists_congr fun n => ScalarType.readItem_int_eq_ok_iff
  · intro m hm key n
    rw [lookup_parse_eq_some_iff (t := .int) hm]
    refine exists_congr fun value => ?_
    rw [exists_and_left]
    exact and_congr_right fun _ => ScalarType.readItem_int_eq_ok_iff
  · intro t pieces h
    rw [parse_eq_readPairs, parse_eq_readPairs, pairs_join_of_forall₂ h]

theorem parse_meaning_port :
    (∀ m, parse .int "port=1,x,port=2".toList = some m → ∀ n,
      m.values.lookup "port".toList = some n ↔ n = 2) ∧
    parse .int (join ',' [" port = 1".toList, "x\t".toList, "port= 2".toList]) =
      parse .int "port=1,x,port=2".toList := by
  have hnil : Blank [] := by simp [Blank]
  have hspace : Blank [' '] := by simp [Blank, isBlank]
  have htab : Blank ['\t'] := by simp [Blank, isBlank]
  constructor
  · intro m hm n
    have hlast : (pairs "port=1,x,port=2".toList).reverse.lookup "port".toList = some ['2'] := by
      decide
    rw [(parse_meaning "port=1,x,port=2".toList).2.2.1 m hm, hlast]
    constructor
    · rintro ⟨value, pos, hvalue, hn⟩
      cases hvalue
      cases hn
      rfl
    · rintro rfl
      exact ⟨['2'], 1, rfl, rfl⟩
  · apply (parse_meaning "port=1,x,port=2".toList).2.2.2
    have hsplit : "port=1,x,port=2".toList.splitOn ',' =
      ["port=1".toList, "x".toList, "port=2".toList] := rfl
    rw [hsplit]
    refine .cons (.inside hspace hspace hspace hnil "port".toList ['1'] (by decide)) ?_
    refine .cons (.around hnil htab ['x']) ?_
    refine .cons (.inside hnil hnil hspace hnil "port".toList ['2'] (by decide)) .nil

end MapValue

end Cli
