import LibUdp.Cli.Effect
import LibUdp.Cli.Syntax

/-!
# What detection loses

`handle_option` classifies a text by its looks and converts it by a function that need not read all
of it. `Accounts` says when a value stands for the whole text, `Lossless` for which texts
`handle_option` stores such a value.
-/

namespace Cli

open Text

/-! ### Values that account for a text -/

/-- A floating-point literal with the value `x`. -/
def IsFloat (v : Text) (x : Double) : Prop :=
  stod v = .ok (x, v.length) ∧ ∀ c ∈ v.head?, isSpace c = false

/-- Every item that is not blank is a pair, and no key comes twice. -/
def CleanPairs (v : Text) : Prop :=
  (∀ item ∈ v.splitOn ',', ¬ Blank item → '=' ∈ item) ∧ ((MapValue.pairs v).map Prod.fst).Nodup

/-- The value stands for all of the text. -/
def Accounts (v : Text) : ValueVariant → Prop
  | .scalar .bool b   => v = if b then "true".toList else "false".toList
  | .scalar .int n    => IsDecimal v n.toInt
  | .scalar .double x => IsFloat v x
  | .scalar .string s => s = v
  | .array .string a  =>
    a.values.Sublist ((v.splitOn ',').map trim) ∧
      a.values.filter (· ≠ []) = ((v.splitOn ',').map trim).filter (· ≠ [])
  | .map .string m    =>
    CleanPairs v ∧ ∀ key value, m.values.lookup key = some value ↔ (key, value) ∈ MapValue.pairs v
  | _ => False

/-- The texts that are kept: truth words, lists, maps that are clean, literals, and texts that do
not look like a number. -/
def Lossless (v : Text) : Prop :=
  (v = "true".toList ∨ v = "false".toList) ∨
  (',' ∈ v ∧ ('=' ∈ v → CleanPairs v)) ∨
  (Unlisted v ∧ ((∃ n : Int32, IsDecimal v n.toInt) ∨
    Fails (fromChars v) ∧ ('.' ∈ v → ∃ x, IsFloat v x)))

variable {v : Text}

lemma accounts_array {a : ArrayValue Text} (h : ArrayValue.parse .string v = some a) :
    Accounts v (.array .string a) := by
  rw [ArrayValue.parse_string, Option.some.injEq] at h
  rw [← h]
  refine ⟨(items_prefix_splitOn ',' v).sublist.map trim, ?_⟩
  dsimp only
  rw [← List.filterMap_eq_filter, List.filterMap_map, List.filterMap_map]
  exact filterMap_items rfl ',' v

lemma lookup_eq_some_iff_of_nodup {ps : List (Text × Text)} (h : (ps.map Prod.fst).Nodup)
    {key value : Text} : ps.lookup key = some value ↔ (key, value) ∈ ps := by
  rw [List.lookup_eq_some_iff]
  constructor
  · rintro ⟨pre, post, rfl, -⟩
    exact List.mem_append_right pre List.mem_cons_self
  · intro hmem
    obtain ⟨pre, post, rfl⟩ := List.append_of_mem hmem
    refine ⟨pre, post, rfl, fun p hp => ?_⟩
    rw [List.map_append, List.nodup_append'] at h
    rw [bne_iff_ne]
    rintro rfl
    exact h.2.2 (List.mem_map_of_mem hp) List.mem_cons_self

lemma accounts_map_iff {m : MapValue Text} (h : MapValue.parse .string v = some m) :
    Accounts v (.map .string m) ↔ CleanPairs v := by
  refine and_iff_left_of_imp ?_
  rintro ⟨-, hnodup⟩ key value
  have hreverse : ((MapValue.pairs v).reverse.map Prod.fst).Nodup := by
    rw [List.map_reverse, List.nodup_reverse]
    exact hnodup
  rw [MapValue.lookup_parse_eq_some_iff (t := .string) h]
  simp only [ScalarType.readItem, Except.ok.injEq, exists_eq_right]
  rw [lookup_eq_some_iff_of_nodup hreverse, List.mem_reverse]

lemma lossless_iff_of_comma (h : ',' ∈ v) : Lossless v ↔ ('=' ∈ v → CleanPairs v) := by
  have htruth : ¬ (v = "true".toList ∨ v = "false".toList) :=
    fun htruth => comma_not_mem_of_truth htruth h
  have hlisted : ¬ Unlisted v := fun hu => hu.2.2 h
  simp only [Lossless, htruth, hlisted, h, true_and, false_and, false_or, or_false]

lemma lossless_iff_of_unlisted (h : Unlisted v) : Lossless v ↔
    (∃ n : Int32, IsDecimal v n.toInt) ∨ Fails (fromChars v) ∧ ('.' ∈ v → ∃ x, IsFloat v x) := by
  simp only [Lossless, h, h.1, h.2.1, h.2.2, true_and, false_and, or_self, false_or]

/-- A text that `from_chars` rejects is no literal of an `int`. -/
lemma lossless_iff_of_fails (h : Unlisted v) (hint : Fails (fromChars v)) :
    Lossless v ↔ ('.' ∈ v → ∃ x, IsFloat v x) := by
  rw [lossless_iff_of_unlisted h, and_iff_right hint, or_iff_right]
  rintro ⟨n, hn⟩
  obtain ⟨e, he⟩ := hint
  rw [fromChars_eq_ok_length_iff.mpr hn] at he
  cases he

/-- What detection makes of a text stands for all of it just when the text is one of `Lossless`. -/
lemma exists_accounts_iff (v : Text) :
    (∃ x, Options.detectValue v = .ok x ∧ Accounts v x) ↔ Lossless v := by
  have hd := detected v
  generalize Options.detectValue v = d at hd
  cases hd with
  | truth h =>
    refine iff_of_true ⟨_, rfl, ?_⟩ (.inl h)
    rcases h with rfl | rfl <;> rfl
  | map hcomma heq hm =>
    rw [lossless_iff_of_comma hcomma]
    simp only [Except.ok.injEq, exists_eq_left', accounts_map_iff hm, heq, true_imp_iff]
  | array hcomma heq ha =>
    exact iff_of_true ⟨_, rfl, accounts_array ha⟩ (.inr (.inl ⟨hcomma, fun h => absurd h heq⟩))
  | @int h r hr =>
    have hok : ¬ Fails (fromChars v) := by simp [Fails, hr]
    simp only [Except.ok.injEq, exists_eq_left', lossless_iff_of_unlisted h, hok, false_and,
      or_false]
    constructor
    · intro haccounts
      exact ⟨r.1, haccounts⟩
    · rintro ⟨n, hn⟩
      have heq := hr.symm.trans (fromChars_eq_ok_length_iff.mpr hn)
      cases heq
      exact hn
  | @double h hint hdot r hr =>
    simp only [Except.ok.injEq, exists_eq_left', lossless_iff_of_fails h hint, hdot, true_imp_iff]
    constructor
    · intro haccounts
      exact ⟨r.1, haccounts⟩
    · rintro ⟨x, hx⟩
      have heq := hr.symm.trans hx.1
      cases heq
      exact hx
  | fails h e =>
    obtain ⟨hu, hint, hdot, e', he⟩ := h
    rw [lossless_iff_of_fails hu hint]
    refine iff_of_false (by simp) fun hfloat => ?_
    obtain ⟨x, hx⟩ := hfloat hdot
    rw [hx.1] at he
    cases he
  | plain h hint hdot =>
    exact iff_of_true ⟨_, rfl, rfl⟩ (.inr (.inr ⟨h, .inr ⟨hint, fun h => absurd h hdot⟩⟩))

/-! ### The option that gets the value -/

namespace Options

variable {W : Type} {o : Options W} {n name : Text} {isShort : Bool}

/-- `handle_option` takes the text and stores a value that stands for all of it. -/
def KeepsAll (o : Options W) (n name v : Text) (isShort : Bool) : Prop :=
  (o.handleOption name v isShort).1 = .ok true ∧
    ∃ x, (o.handleOption name v isShort).2.values.lookup n = some x ∧ Accounts v x

lemma handleOption_eq_of_empty (hname : o.longNameOf isShort name = some n)
    (hvalue : o.values.lookup n = none) (hvalid : o.validators.lookup n = none) :
    o.handleOption name v isShort = match detectValue v with
      | .ok x    => (.ok true, { o with values := o.values.insert n x })
      | .error _ => (.ok false, o) := by
  have hempty : o.hasValue n = false := hasValue_eq_false_iff.mpr hvalue
  rw [handleOption_eq, hname]
  simp only [validateOption, hvalid, andThen, storeValue, hempty]
  cases detectValue v <;> rfl

/-- An option without value and validator takes a text without loss just when the text is one of
`Lossless`. -/
theorem keepsAll_iff (o : Options W) (n name v : Text) (isShort : Bool)
    (hname : o.longNameOf isShort name = some n) (hvalue : o.values.lookup n = none)
    (hvalid : o.validators.lookup n = none) : o.KeepsAll n name v isShort ↔ Lossless v := by
  rw [← exists_accounts_iff, KeepsAll, handleOption_eq_of_empty hname hvalue hvalid]
  cases detectValue v with
  | error e => simp
  | ok x => simp

theorem keepsAll_report :
    (({ world := () } : Options Unit).addOption (fun _ => none) (.scalar .string)
        { shortName := [], longName := "file".toList }).2.KeepsAll
      "file".toList "file".toList "report".toList false := by
  apply keepsAll_iff _ "file".toList "file".toList "report".toList false rfl rfl rfl |>.mpr
  exact .inr (.inr ⟨by simp [Unlisted], .inr ⟨⟨.invalidArgument, rfl⟩,
    fun hdot => absurd hdot (by decide)⟩⟩)

/-- A file name is rejected, and only a part is kept of an address, a number with a point, a list of
which not every item is a pair, and a map with a key that comes twice. -/
theorem not_keepsAll :
    let o := (({ world := () } : Options Unit).addOption (fun _ => none) (.scalar .string)
      { shortName := [], longName := "file".toList }).2
    (o.handleOption "file".toList "config.json".toList false).1 = .ok false ∧
      detectValue "192.168.1.1".toList = .ok (.scalar .int 192) ∧
      detectValue "3.14".toList = .ok (.scalar .int 3) ∧
      detectValue "a=1,b".toList =
        .ok (.map .string ⟨Finmap.singleton "a".toList "1".toList⟩) ∧
      detectValue "a=1,a=2".toList =
        .ok (.map .string ⟨Finmap.singleton "a".toList "2".toList⟩) ∧
      ¬ o.KeepsAll "file".toList "file".toList "config.json".toList false := by
  intro o
  have hrejects : (o.handleOption "file".toList "config.json".toList false).1 = .ok false := by
    decide
  refine ⟨hrejects, rfl, rfl, rfl, rfl, fun h => ?_⟩
  rw [KeepsAll, hrejects] at h
  cases h.1

end Options

end Cli
