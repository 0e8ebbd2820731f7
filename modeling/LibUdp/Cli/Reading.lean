import LibUdp.Cli.Calls
import LibUdp.Cli.Syntax

/-!
# Three readers of one text

`handle_value`, `Array_value::parse` and `Map_value::parse` each have their own conversion of a
single text. The first one knows more truth words and does not stop in the middle of a text.
-/

namespace Cli

open Text

lemma eq_one_of_toLower_eq {c : Char} (h : c.toLower = '1') : c = '1' := by
  delta Char.toLower at h
  split at h
  · -- a letter becomes a letter
    rename_i hupper
    have hval := congrArg Char.val h
    have hle := hupper.1
    have hle' := hupper.2
    simp only at hval
    grind
  · exact h

lemma toLower_eq_one_iff {x : Text} : toLower x = "1".toList ↔ x = "1".toList := by
  constructor
  · intro h
    obtain ⟨c, rfl, hc⟩ := List.map_eq_singleton_iff.mp h
    rw [eq_one_of_toLower_eq hc]
    rfl
  · rintro rfl
    rfl

variable {t : ScalarType} {x : Text}

/-! ### The parsers on a single item -/

lemma ArrayValue.parse_single (hne : x ≠ []) (hcomma : ',' ∉ x) (htrim : Trimmed x) :
    ArrayValue.parse t x = (t.readItem x).toOption.map fun y => ⟨[y]⟩ := by
  rw [parse, items_of_not_mem hcomma hne, parseItems, parseItems, trim_eq_self_iff.mpr htrim]
  cases t.readItem x <;> rfl

lemma MapValue.parse_single (hcomma : ',' ∉ x) (htrim : Trimmed x) :
    MapValue.parse t ("k=".toList ++ x) =
      (t.readItem x).toOption.map fun y => ⟨Finmap.singleton "k".toList y⟩ := by
  have hkey : '=' ∉ "k".toList := by decide
  have hpiece : "k=".toList ++ x = "k".toList ++ '=' :: x := rfl
  have hcomma' : ',' ∉ "k".toList ++ '=' :: x := by simp [hcomma]
  have htrim' : trim "k".toList = "k".toList := rfl
  rw [parse_eq_readPairs, hpiece, pairs, List.splitOn_eq_singleton hcomma', List.filterMap_cons,
    pair?_append_cons hkey, trim_eq_self_iff.mpr htrim, htrim']
  cases hread : t.readItem x with
  | error e => simp [readPairs, hread, bind, Except.bind, Except.toOption]
  | ok y =>
    simp only [List.filterMap_nil, readPairs, hread, bind, Except.bind, Except.toOption,
      Option.map_some]
    rfl

namespace Options

variable {W : Type} {o : Options W} {name : Text}

/-- `handle_value<T>` takes the text for the value. -/
def Reads (o : Options W) (t : ScalarType) (name x : Text) (y : t.Carrier) : Prop :=
  (o.handleValue (.scalar t) name x).1 = .ok () ∧
    (o.handleValue (.scalar t) name x).2.get (.scalar t) name = some y

/-- The three readers agree on the text: they take it for the same value, or none takes it. -/
def OneRule (o : Options W) (t : ScalarType) (name x : Text) : Prop :=
  (∀ y, o.Reads t name x y ↔ ArrayValue.parse t x = some ⟨[y]⟩ ∧
      MapValue.parse t ("k=".toList ++ x) = some ⟨Finmap.singleton "k".toList y⟩) ∧
    ((o.handleValue (.scalar t) name x).1 ≠ .ok () →
      ArrayValue.parse t x = none ∧ MapValue.parse t ("k=".toList ++ x) = none)

lemma reads_iff {y : t.Carrier} : o.Reads t name x y ↔
    OptionType.convert (.scalar t) x = .ok y ∧ o.Accepts name x := by
  obtain ⟨world, hworld⟩ := o.snd_handleValue (.scalar t) name x
  rw [Reads, fst_handleValue_eq_ok_iff, hworld, get, lookup_setValue, if_pos rfl]
  cases OptionType.convert (.scalar t) x with
  | error e => simp
  | ok z => simp [Except.toOption, and_comm]

/-- The readers agree when `handle_value` reads what the parsers read of an item. -/
lemma oneRule_iff (hne : x ≠ []) (hcomma : ',' ∉ x) (htrim : Trimmed x) :
    o.OneRule t name x ↔ ∀ y, t.readItem x = .ok y ↔
      OptionType.convert (.scalar t) x = .ok y ∧ o.Accepts name x := by
  rw [OneRule, ArrayValue.parse_single hne hcomma htrim, MapValue.parse_single hcomma htrim]
  have hread : ∀ y, t.readItem x = .ok y ↔
      ((t.readItem x).toOption.map fun y => (⟨[y]⟩ : ArrayValue t.Carrier)) = some ⟨[y]⟩ ∧
      ((t.readItem x).toOption.map fun y =>
        (⟨Finmap.singleton "k".toList y⟩ : MapValue t.Carrier)) =
          some ⟨Finmap.singleton "k".toList y⟩ := by
    intro y
    cases t.readItem x with
    | error e => simp [Except.toOption]
    | ok z =>
      simp only [Except.toOption, Option.map_some, Except.ok.injEq, Option.some.injEq,
        ArrayValue.mk.injEq, List.cons.injEq, and_true]
      exact ⟨fun hzy => ⟨hzy, by rw [hzy]⟩, And.left⟩
  simp only [← hread, reads_iff]
  constructor
  · intro h y
    exact (h.1 y).symm
  · intro h
    refine ⟨fun y => (h y).symm, fun hrejects => ?_⟩
    cases hitem : t.readItem x with
    | error e => exact ⟨rfl, rfl⟩
    | ok y => exact absurd (reads_iff.mpr ((h y).mp hitem)).1 hrejects

lemma oneRule_bool_iff (hne : x ≠ []) (hcomma : ',' ∉ x) (htrim : Trimmed x) :
    o.OneRule .bool name x ↔ o.Accepts name x ∧ toLower x ≠ "yes".toList ∧
      toLower x ≠ "on".toList ∧ (toLower x = "true".toList → x = "true".toList) := by
  have hread : ∀ y, ScalarType.readItem .bool x = .ok y ↔
      decide (x = "true".toList ∨ x = "1".toList) = y := by
    intro y
    rw [ScalarType.readItem, Bool.decide_or, Except.ok.injEq]
  have hconvert : ∀ y, OptionType.convert (.scalar .bool) x = .ok y ↔
      decide (toLower x = "true".toList ∨ x = "1".toList ∨ toLower x = "yes".toList ∨
        toLower x = "on".toList) = y := by
    intro y
    rw [OptionType.convert, Except.ok.injEq]
    simp only [toLower_eq_one_iff, Bool.decide_or, Bool.or_assoc]
  rw [oneRule_iff hne hcomma htrim]
  simp only [hread, hconvert]
  constructor
  · intro h
    obtain ⟨hwords, haccepts⟩ := (h _).mp rfl
    rw [decide_eq_decide] at hwords
    refine ⟨haccepts, fun hyes => ?_, fun hon => ?_, fun hlower => ?_⟩
    · rcases hwords.mp (.inr (.inr (.inl hyes))) with rfl | rfl
      · cases hyes
      · cases hyes
    · rcases hwords.mp (.inr (.inr (.inr hon))) with rfl | rfl
      · cases hon
      · cases hon
    · rcases hwords.mp (.inl hlower) with rfl | rfl
      · rfl
      · cases hlower
  · rintro ⟨haccepts, hyes, hon, hlower⟩ y
    have hwords : (toLower x = "true".toList ∨ x = "1".toList ∨ toLower x = "yes".toList ∨
        toLower x = "on".toList) ↔ (x = "true".toList ∨ x = "1".toList) := by
      simp only [hyes, hon, or_false]
      refine or_congr_left ⟨hlower, ?_⟩
      rintro rfl
      rfl
    simp only [hwords, haccepts, and_true]

lemma oneRule_int_iff (hne : x ≠ []) (hcomma : ',' ∉ x) (htrim : Trimmed x) :
    o.OneRule .int name x ↔
      ∀ n pos, stoi x = .ok (n, pos) → pos = x.length ∧ o.Accepts name x := by
  rw [oneRule_iff hne hcomma htrim]
  constructor
  · intro h n pos hstoi
    obtain ⟨hconvert, haccepts⟩ := (h n).mp (ScalarType.readItem_int_eq_ok_iff.mpr ⟨pos, hstoi⟩)
    rw [OptionType.convert_int_eq_ok_iff, hstoi] at hconvert
    cases hconvert
    exact ⟨rfl, haccepts⟩
  · intro h n
    rw [OptionType.convert_int_eq_ok_iff]
    constructor
    · intro hread
      obtain ⟨pos, hstoi⟩ := ScalarType.readItem_int_eq_ok_iff.mp hread
      obtain ⟨rfl, haccepts⟩ := h n pos hstoi
      exact ⟨hstoi, haccepts⟩
    · rintro ⟨hstoi, -⟩
      exact ScalarType.readItem_int_eq_ok_iff.mpr ⟨_, hstoi⟩

/-- Where the three readers agree. -/
theorem oneRule_bool_and_int_iff (o : Options W) (name x : Text) (hne : x ≠ [])
    (hcomma : ',' ∉ x) (htrim : Trimmed x) :
    (o.OneRule .bool name x ↔ o.Accepts name x ∧ toLower x ≠ "yes".toList ∧
      toLower x ≠ "on".toList ∧ (toLower x = "true".toList → x = "true".toList)) ∧
    (o.OneRule .int name x ↔
      ∀ n pos, stoi x = .ok (n, pos) → pos = x.length ∧ o.Accepts name x) :=
  ⟨oneRule_bool_iff hne hcomma htrim, oneRule_int_iff hne hcomma htrim⟩

theorem oneRule_true_and_int_port :
    ({ world := () } : Options Unit).OneRule .bool "verbose".toList "true".toList ∧
      ({ world := () } : Options Unit).OneRule .int "port".toList "-80".toList := by
  constructor
  · apply (oneRule_bool_and_int_iff { world := () } "verbose".toList "true".toList (by decide)
      (by decide) (by simp [Trimmed, isBlank])).1.mpr
    exact ⟨rfl, by decide, by decide, fun _ => rfl⟩
  · apply (oneRule_bool_and_int_iff { world := () } "port".toList "-80".toList (by decide)
      (by decide) (by simp [Trimmed, isBlank])).2.mpr
    intro n pos h
    cases h
    exact ⟨rfl, rfl⟩

/-- `yes` is a truth word for `handle_value` only, and only the parsers read a number out of text
that goes on after it. -/
theorem not_oneRule :
    let o : Options Unit := { world := () }
    o.Reads .bool "verbose".toList "yes".toList true ∧
      ArrayValue.parse .bool "yes".toList = some ⟨[false]⟩ ∧
      (o.handleValue (.scalar .int) "port".toList "12abc".toList).1 ≠ .ok () ∧
      ArrayValue.parse .int "12abc".toList = some ⟨[12]⟩ ∧
      ¬ o.OneRule .bool "verbose".toList "yes".toList ∧
      ¬ o.OneRule .int "port".toList "12abc".toList := by
  intro o
  have hyes : o.Reads .bool "verbose".toList "yes".toList true := ⟨rfl, rfl⟩
  have habc : (o.handleValue (.scalar .int) "port".toList "12abc".toList).1 ≠ .ok () := by decide
  refine ⟨hyes, rfl, habc, rfl, fun h => ?_, fun h => ?_⟩
  · exact absurd ((h.1 true).mp hyes).1 (by decide)
  · exact absurd (h.2 habc).1 (by decide)

end Options

end Cli
