import LibUdp.Cli.Grammar

/-!
# The two conversions of a text

A default or environment text is converted by the declared type of the option, a text from the
command line by its looks. `Agrees` says for which types and texts the two come to the same.
-/

namespace Cli

open Text

/-! ### What detection makes of a text -/

def Fails {ε α : Type} (result : Except ε α) : Prop := ∃ e, result = .error e

/-- Neither a truth word nor a list. -/
def Unlisted (v : Text) : Prop := v ≠ "true".toList ∧ v ≠ "false".toList ∧ ',' ∉ v

/-- A text that `handle_option` takes for a floating-point number and cannot convert. -/
def Undetectable (v : Text) : Prop :=
  Unlisted v ∧ Fails (fromChars v) ∧ '.' ∈ v ∧ Fails (stod v)

lemma MapValue.parsePairs_string (m : Finmap fun _ : Text => Text) (l : List Text) :
    ∃ m', MapValue.parsePairs .string m l = .ok m' := by
  induction l generalizing m with
  | nil => exact ⟨m, rfl⟩
  | cons pair rest ih =>
    rw [parsePairs]
    split_ifs
    · exact ih _
    · exact ih m

lemma MapValue.exists_parse_string (v : Text) : ∃ m, MapValue.parse .string v = some m := by
  obtain ⟨m, hm⟩ := MapValue.parsePairs_string ∅ (items ',' v)
  exact ⟨⟨m⟩, by rw [MapValue.parse, hm]⟩

lemma ArrayValue.parse_string (v : Text) :
    ArrayValue.parse .string v = some ⟨(items ',' v).map trim⟩ := by
  rw [ArrayValue.parse, ArrayValue.parseItems_string]

/-- The outcomes of `detectValue`, each with the texts that lead to it. -/
inductive Detected (v : Text) : Except ConversionError ValueVariant → Prop where
  | truth (h : v = "true".toList ∨ v = "false".toList) :
      Detected v (.ok (.scalar .bool (v = "true".toList)))
  | map (hcomma : ',' ∈ v) (heq : '=' ∈ v) {m : MapValue Text}
      (hm : MapValue.parse .string v = some m) : Detected v (.ok (.map .string m))
  | array (hcomma : ',' ∈ v) (heq : '=' ∉ v) {a : ArrayValue Text}
      (ha : ArrayValue.parse .string v = some a) : Detected v (.ok (.array .string a))
  | int (h : Unlisted v) {r : Int32 × ℕ} (hr : fromChars v = .ok r) :
      Detected v (.ok (.scalar .int r.1))
  | double (h : Unlisted v) (hint : Fails (fromChars v)) (hdot : '.' ∈ v)
      {r : Double × ℕ} (hr : stod v = .ok r) : Detected v (.ok (.scalar .double r.1))
  | fails (h : Undetectable v) (e : ConversionError) : Detected v (.error e)
  | plain (h : Unlisted v) (hint : Fails (fromChars v)) (hdot : '.' ∉ v) :
      Detected v (.ok (.scalar .string v))

lemma detected (v : Text) : Detected v (Options.detectValue v) := by
  unfold Options.detectValue
  split_ifs with htruth hcomma heq hint hdot
  · exact .truth htruth
  · obtain ⟨m, hm⟩ := MapValue.exists_parse_string v
    rw [hm]
    exact .map hcomma heq hm
  · have ha := ArrayValue.parse_string v
    rw [ha]
    exact .array hcomma heq ha
  all_goals
    have h : Unlisted v := ⟨fun h => htruth (.inl h), fun h => htruth (.inr h), hcomma⟩
    cases hr : fromChars v with
    | ok r => ?_
    | error e => ?_
  · rw [stoi_of_fromChars hr]
    exact .int h hr
  · simp [hr, Except.isOk, Except.toBool] at hint
  · simp [hr, Except.isOk, Except.toBool] at hint
  · cases hd : stod v with
    | error e' => exact .fails ⟨h, ⟨e, hr⟩, hdot, ⟨e', hd⟩⟩ e'
    | ok r => exact .double h ⟨e, hr⟩ hdot hd
  · simp [hr, Except.isOk, Except.toBool] at hint
  · exact .plain h ⟨e, hr⟩ hdot

lemma comma_not_mem_of_truth {v : Text} (h : v = "true".toList ∨ v = "false".toList) :
    ',' ∉ v := by
  rcases h with rfl | rfl <;> decide

namespace Detected

/-! Each outcome has a condition on the text alone. -/

variable {v : Text} {d : Except ConversionError ValueVariant}

lemma truth_of_eq_bool (hd : Detected v d) {b : Bool} (h : d = .ok (.scalar .bool b)) :
    v = "true".toList ∨ v = "false".toList := by
  cases hd <;> grind

lemma eq_int_iff (hd : Detected v d) {n : Int32} :
    d = .ok (.scalar .int n) ↔ Unlisted v ∧ ∃ pos, fromChars v = .ok (n, pos) := by
  cases hd <;> grind [Unlisted, Undetectable, Fails]

lemma eq_double_iff (hd : Detected v d) {x : Double} :
    d = .ok (.scalar .double x) ↔
      Unlisted v ∧ Fails (fromChars v) ∧ '.' ∈ v ∧ ∃ pos, stod v = .ok (x, pos) := by
  cases hd <;> grind [Unlisted, Undetectable, Fails]

lemma eq_string_iff (hd : Detected v d) :
    d = .ok (.scalar .string v) ↔ Unlisted v ∧ Fails (fromChars v) ∧ '.' ∉ v := by
  cases hd <;> grind [Unlisted, Undetectable, Fails]

lemma eq_array_iff (hd : Detected v d) {a : ArrayValue Text} :
    d = .ok (.array .string a) ↔
      ',' ∈ v ∧ '=' ∉ v ∧ ArrayValue.parse .string v = some a := by
  cases hd <;> grind [Unlisted, Undetectable, Fails, comma_not_mem_of_truth]

lemma eq_map_iff (hd : Detected v d) {m : MapValue Text} :
    d = .ok (.map .string m) ↔ ',' ∈ v ∧ '=' ∈ v ∧ MapValue.parse .string v = some m := by
  cases hd <;> grind [Unlisted, Undetectable, Fails, comma_not_mem_of_truth]

lemma ne_array (hd : Detected v d) {t : ScalarType} (ht : t ≠ .string)
    (a : ArrayValue t.Carrier) : d ≠ .ok (.array t a) := by
  rintro rfl
  cases hd
  exact ht rfl

lemma ne_map (hd : Detected v d) {t : ScalarType} (ht : t ≠ .string)
    (m : MapValue t.Carrier) : d ≠ .ok (.map t m) := by
  rintro rfl
  cases hd
  exact ht rfl

lemma fails_iff (hd : Detected v d) : Fails d ↔ Undetectable v := by
  cases hd <;> grind [Unlisted, Undetectable, Fails]

end Detected

/-! ### What the declared type makes of a text -/

/-- A standard conversion whose result counts only when it has read the whole text. -/
lemma convertWhole_eq_ok_iff {α : Type} {r : Except ConversionError (α × ℕ)} {function : Text}
    {e : Exn} {length : ℕ} {x : α} :
    (do
      let (result, pos) ← ofConversion function r
      if pos ≠ length then
        throw e
      return result) = .ok x ↔ r = .ok (x, length) := by
  cases r with
  | error e => simp [ofConversion, bind, Except.bind]
  | ok r =>
    obtain ⟨y, pos⟩ := r
    by_cases hpos : pos = length
    · simp [ofConversion, bind, Except.bind, hpos, pure, Except.pure]
    · simp [ofConversion, bind, Except.bind, hpos, throw, throwThe, MonadExceptOf.throw]

lemma OptionType.convert_int_eq_ok_iff {v : Text} {n : Int32} :
    OptionType.convert (.scalar .int) v = .ok n ↔ stoi v = .ok (n, v.length) :=
  convertWhole_eq_ok_iff

lemma OptionType.convert_double_eq_ok_iff {v : Text} {x : Double} :
    OptionType.convert (.scalar .double) v = .ok x ↔ stod v = .ok (x, v.length) :=
  convertWhole_eq_ok_iff

lemma unlisted_of_stoi {v : Text} {n : Int32} (h : stoi v = .ok (n, v.length)) : Unlisted v := by
  have hmem := mem_of_stoi_eq_length h
  refine ⟨?_, ?_, ?_⟩
  · rintro rfl
    exact absurd (hmem 'e' (by decide)) (by decide)
  · rintro rfl
    exact absurd (hmem 'e' (by decide)) (by decide)
  · intro hcomma
    exact absurd (hmem ',' hcomma) (by decide)

lemma dot_not_mem_of_stoi {v : Text} {n : Int32} (h : stoi v = .ok (n, v.length)) : '.' ∉ v := by
  intro hdot
  exact absurd (mem_of_stoi_eq_length h '.' hdot) (by decide)

lemma Undetectable.items_eq {v : Text} (h : Undetectable v) : items ',' v = [v] := by
  apply items_of_not_mem h.1.2.2
  rintro rfl
  exact absurd h.2.2.1 (by simp)

lemma Undetectable.convert_array_fails_iff {v : Text} (h : Undetectable v) (t : ScalarType) :
    Fails (OptionType.convert (.array t) v) ↔ Fails (t.readItem (trim v)) := by
  rw [OptionType.convert, ArrayValue.parse, h.items_eq, ArrayValue.parseItems,
    ArrayValue.parseItems]
  cases t.readItem (trim v) <;> simp [Fails, bind, Except.bind, pure, Except.pure]

lemma Undetectable.convert_map_fails_iff {v : Text} (h : Undetectable v) (t : ScalarType)
    (ht : t ≠ .bool) : Fails (OptionType.convert (.map t ht) v) ↔
      '=' ∈ v ∧ Fails (t.readItem (trim (after '=' v))) := by
  rw [OptionType.convert, MapValue.parse, h.items_eq, MapValue.parsePairs]
  split_ifs with heq
  · cases t.readItem (trim (after '=' v)) <;>
      simp [heq, Fails, MapValue.parsePairs, bind, Except.bind]
  · simp [heq, Fails, MapValue.parsePairs]

/-! ### Where the two agree -/

/-- Detection stores what the declared type makes of the text, and fails where that fails. -/
def SameConversion (T : OptionType) (v : Text) : Prop :=
  match T.convert v with
  | .ok x    => Options.detectValue v = .ok (T.wrap x)
  | .error _ => Fails (Options.detectValue v)

/-- The types and texts at which the two conversions come to the same. -/
def Agrees : OptionType → Text → Prop
  | .scalar .bool, v   => v = "true".toList ∨ v = "false".toList
  | .scalar .int, v    => (∃ n, fromChars v = .ok (n, v.length)) ∨ Undetectable v
  | .scalar .double, v =>
    Unlisted v ∧ Fails (fromChars v) ∧ '.' ∈ v ∧ ∀ r, stod v = .ok r → r.2 = v.length
  | .scalar .string, v => Unlisted v ∧ Fails (fromChars v) ∧ '.' ∉ v
  | .array .string, v  => ',' ∈ v ∧ '=' ∉ v
  | .array t, v        => Undetectable v ∧ Fails (t.readItem (trim v))
  | .map .string _, v  => ',' ∈ v ∧ '=' ∈ v
  | .map t _, v        => Undetectable v ∧ '=' ∈ v ∧ Fails (t.readItem (trim (after '=' v)))

/-- Where detection makes no value of the type, the two can only agree in that both fail. -/
lemma sameConversion_iff_of_ne {T : OptionType} {v : Text}
    (h : ∀ x, Options.detectValue v ≠ .ok (T.wrap x)) :
    SameConversion T v ↔ Undetectable v ∧ Fails (T.convert v) := by
  unfold SameConversion
  cases T.convert v with
  | ok x => exact iff_of_false (h x) (by simp [Fails])
  | error e => exact (detected v).fails_iff.trans (and_iff_left ⟨e, rfl⟩).symm

lemma sameConversion_bool (v : Text) :
    SameConversion (.scalar .bool) v ↔ Agrees (.scalar .bool) v := by
  constructor
  · exact (detected v).truth_of_eq_bool
  · rintro (rfl | rfl) <;> rfl

lemma sameConversion_int (v : Text) :
    SameConversion (.scalar .int) v ↔ Agrees (.scalar .int) v := by
  unfold SameConversion Agrees
  cases hc : OptionType.convert (.scalar .int) v with
  | ok n =>
    have hs := OptionType.convert_int_eq_ok_iff.mp hc
    constructor
    · intro h
      obtain ⟨-, pos, hpos⟩ := (detected v).eq_int_iff.mp h
      have heq := (stoi_of_fromChars hpos).symm.trans hs
      cases heq
      exact .inl ⟨_, hpos⟩
    · rintro (⟨k, hk⟩ | h)
      · have heq := (stoi_of_fromChars hk).symm.trans hs
        cases heq
        exact (detected v).eq_int_iff.mpr ⟨unlisted_of_stoi hs, _, hk⟩
      · exact absurd h.2.2.1 (dot_not_mem_of_stoi hs)
  | error e =>
    constructor
    · exact fun h => .inr ((detected v).fails_iff.mp h)
    · rintro (⟨k, hk⟩ | h)
      · rw [OptionType.convert_int_eq_ok_iff.mpr (stoi_of_fromChars hk)] at hc
        cases hc
      · exact (detected v).fails_iff.mpr h

lemma sameConversion_double (v : Text) :
    SameConversion (.scalar .double) v ↔ Agrees (.scalar .double) v := by
  unfold SameConversion Agrees
  cases hc : OptionType.convert (.scalar .double) v with
  | ok x =>
    have hs := OptionType.convert_double_eq_ok_iff.mp hc
    constructor
    · intro h
      obtain ⟨hu, hint, hdot, -⟩ := (detected v).eq_double_iff.mp h
      refine ⟨hu, hint, hdot, ?_⟩
      intro r hr
      rw [hs] at hr
      cases hr
      rfl
    · rintro ⟨hu, hint, hdot, -⟩
      exact (detected v).eq_double_iff.mpr ⟨hu, hint, hdot, _, hs⟩
  | error e =>
    constructor
    · intro h
      obtain ⟨hu, hint, hdot, e', he⟩ := (detected v).fails_iff.mp h
      refine ⟨hu, hint, hdot, ?_⟩
      intro r hr
      rw [he] at hr
      cases hr
    · rintro ⟨hu, hint, hdot, hlen⟩
      refine (detected v).fails_iff.mpr ⟨hu, hint, hdot, ?_⟩
      cases hs : stod v with
      | error e' => exact ⟨e', rfl⟩
      | ok r =>
        have hr : stod v = .ok (r.1, v.length) := by rw [← hlen r hs, hs]
        rw [OptionType.convert_double_eq_ok_iff.mpr hr] at hc
        cases hc

lemma sameConversion_string (v : Text) :
    SameConversion (.scalar .string) v ↔ Agrees (.scalar .string) v :=
  (detected v).eq_string_iff

lemma sameConversion_array (t : ScalarType) (v : Text) :
    SameConversion (.array t) v ↔ Agrees (.array t) v := by
  by_cases ht : t = .string
  · subst ht
    have ha := ArrayValue.parse_string v
    have h := (detected v).eq_array_iff (a := ⟨(items ',' v).map trim⟩)
    simpa only [SameConversion, OptionType.convert, OptionType.wrap, ha, Agrees, and_true] using h
  · have hagrees : Agrees (.array t) v ↔ Undetectable v ∧ Fails (t.readItem (trim v)) := by
      cases t <;> first | exact Iff.rfl | exact absurd rfl ht
    rw [hagrees, sameConversion_iff_of_ne ((detected v).ne_array ht)]
    exact and_congr_right fun hu => hu.convert_array_fails_iff t

lemma sameConversion_map (t : ScalarType) (h : t ≠ .bool) (v : Text) :
    SameConversion (.map t h) v ↔ Agrees (.map t h) v := by
  by_cases ht : t = .string
  · subst ht
    obtain ⟨m, hm⟩ := MapValue.exists_parse_string v
    have h := (detected v).eq_map_iff (m := m)
    simpa only [SameConversion, OptionType.convert, OptionType.wrap, hm, Agrees, and_true] using h
  · have hagrees : Agrees (.map t h) v ↔
        Undetectable v ∧ '=' ∈ v ∧ Fails (t.readItem (trim (after '=' v))) := by
      cases t <;> first | exact Iff.rfl | exact absurd rfl ht
    rw [hagrees, sameConversion_iff_of_ne ((detected v).ne_map ht)]
    exact and_congr_right fun hu => hu.convert_map_fails_iff t h

/-- The two conversions agree at the types and texts of `Agrees` and nowhere else. -/
theorem sameConversion_iff (T : OptionType) (v : Text) : SameConversion T v ↔ Agrees T v := by
  rcases T with (_ | _ | _ | _) | t | ⟨t, h⟩
  · exact sameConversion_bool v
  · exact sameConversion_int v
  · exact sameConversion_double v
  · exact sameConversion_string v
  · exact sameConversion_array t v
  · exact sameConversion_map t h v

/-! ### Which texts the declared type takes -/

/-- The texts that `handle_value` can convert to the type. -/
def Convertible : OptionType → Text → Prop
  | .scalar .bool, _   => True
  | .scalar .int, v    => ∃ n, stoi v = .ok (n, v.length)
  | .scalar .double, v => ∃ x, stod v = .ok (x, v.length)
  | .scalar .string, _ => True
  | .array t, v        => ∀ item ∈ items ',' v, ¬ Fails (t.readItem (trim item))
  | .map t _, v        =>
    ∀ pair ∈ items ',' v, '=' ∈ pair → ¬ Fails (t.readItem (trim (after '=' pair)))

lemma ArrayValue.parseItems_fails_iff (t : ScalarType) (l : List Text) :
    Fails (ArrayValue.parseItems t l) ↔ ∃ item ∈ l, Fails (t.readItem (trim item)) := by
  induction l with
  | nil => simp [parseItems, Fails]
  | cons item rest ih =>
    rw [parseItems, List.exists_mem_cons_iff, ← ih]
    cases t.readItem (trim item) <;> cases ArrayValue.parseItems t rest <;>
      simp [Fails, bind, Except.bind, pure, Except.pure]

lemma MapValue.parsePairs_fails_iff (t : ScalarType) (m : Finmap fun _ : Text => t.Carrier)
    (l : List Text) : Fails (MapValue.parsePairs t m l) ↔
      ∃ pair ∈ l, '=' ∈ pair ∧ Fails (t.readItem (trim (after '=' pair))) := by
  induction l generalizing m with
  | nil => simp [parsePairs, Fails]
  | cons pair rest ih =>
    rw [parsePairs, List.exists_mem_cons_iff]
    split_ifs with heq
    · cases hr : t.readItem (trim (after '=' pair)) with
      | error e => simp [heq, Fails, bind, Except.bind]
      | ok x =>
        have h : ¬ Fails (.ok x : Except ConversionError t.Carrier) := by simp [Fails]
        simp only [h, and_false, false_or]
        exact ih _
    · simp only [heq, false_and, false_or]
      exact ih m

lemma convert_fails_iff (T : OptionType) (v : Text) :
    Fails (T.convert v) ↔ ¬ Convertible T v := by
  rcases T with (_ | _ | _ | _) | t | ⟨t, h⟩
  · simp [OptionType.convert, Convertible, Fails]
  · have h := fun n => OptionType.convert_int_eq_ok_iff (v := v) (n := n)
    simp only [Convertible, ← h]
    cases OptionType.convert (.scalar .int) v <;> simp [Fails]
  · have h := fun x => OptionType.convert_double_eq_ok_iff (v := v) (x := x)
    simp only [Convertible, ← h]
    cases OptionType.convert (.scalar .double) v <;> simp [Fails]
  · simp [OptionType.convert, Convertible, Fails]
  · have h := ArrayValue.parseItems_fails_iff t (items ',' v)
    simp only [Convertible, not_forall, not_not, exists_prop, ← h]
    simp only [OptionType.convert, ArrayValue.parse]
    cases ArrayValue.parseItems t (items ',' v) <;> simp [Fails]
  · have h := MapValue.parsePairs_fails_iff t ∅ (items ',' v)
    simp only [Convertible, not_forall, not_not, exists_prop, ← h]
    simp only [OptionType.convert, MapValue.parse]
    cases MapValue.parsePairs t ∅ (items ',' v) <;> simp [Fails]

lemma exists_convert_iff (T : OptionType) (v : Text) :
    (∃ x, T.convert v = .ok x) ↔ Convertible T v := by
  rw [← not_iff_not, ← convert_fails_iff]
  cases T.convert v <;> simp [Fails]

/-! ### One option on the command line -/

namespace Options

variable {W : Type}

/-- The argument `--n=v`. -/
def assignment (n v : Text) : Text := "--".toList ++ n ++ '=' :: v

/-- `parse` on the single argument `--n=v` ends like `handle_value<T>` on `n` and `v`. -/
def ParsesLikeHandleValue (o : Options W) (T : OptionType) (program n v : Text) : Prop :=
  match o.handleValue T n v with
  | (.ok (), o')  => ∃ x, o'.get T n = some x ∧
      (o.parse [program, assignment n v]).1 = .ok true ∧
      (o.parse [program, assignment n v]).2.get T n = some x
  | (.error _, _) => (o.parse [program, assignment n v]).1 = .ok false

/-- An option that was just registered with neither default nor environment variable. -/
structure Bare (o : Options W) (desc : OptionDescriptor) : Prop where
  lookup_longNames : o.longNames.lookup desc.longName = some desc
  lookup_values : o.values.lookup desc.longName = none
  lookup_validators : o.validators.lookup desc.longName = none

lemma bare_addOption {o : Options W} {env : Text → Option Text} {T : OptionType}
    {desc : OptionDescriptor} (hname : desc.longName ≠ []) (hdefault : desc.defaultValue = none)
    (henv : desc.envVar = none) (hvalue : o.values.lookup desc.longName = none)
    (hvalid : o.validators.lookup desc.longName = none) :
    Bare (o.addOption env T desc).2 desc := by
  have h : (o.addOption env T desc).2 = o.addDescriptor desc := by
    simp [addOption, hname, initialText, hdefault, henv]
  rw [h]
  refine ⟨?_, by simpa using hvalue, by simpa using hvalid⟩
  rw [addDescriptor, if_pos hname]
  exact Finmap.lookup_insert _

variable {o : Options W} {desc : OptionDescriptor} {T : OptionType} {v program : Text}

lemma Bare.handleValue_eq (h : Bare o desc) (T : OptionType) (v : Text) :
    o.handleValue T desc.longName v = match T.convert v with
      | .ok x    => (.ok (), { o with values := o.values.insert desc.longName (T.wrap x) })
      | .error e => (.error (rethrow desc.longName v e), o) := by
  unfold handleValue
  cases T.convert v <;> simp [h.lookup_validators]

lemma Bare.parseArgs_eq (h : Bare o desc) (heq : '=' ∉ desc.longName) (v : Text) :
    o.parseArgs [assignment desc.longName v] = match detectValue v with
      | .ok x    => (.ok true, { o with values := o.values.insert desc.longName x })
      | .error _ => (.ok false, o) := by
  have hprefix : "--".toList.isPrefixOf (assignment desc.longName v) = true := by
    simp [assignment]
  have hdrop : (assignment desc.longName v).drop 2 = desc.longName ++ '=' :: v := rfl
  have hmem : '=' ∈ desc.longName ++ '=' :: v := by simp
  rw [parseArgs, if_pos hprefix, hdrop, if_pos hmem, before_append_cons heq, after_append_cons heq]
  have hnames : o.names false = o.longNames := rfl
  have hvalue : o.hasValue desc.longName = false := by simp [hasValue, h.lookup_values]
  simp only [handleOption, hnames, h.lookup_longNames, validateOption, h.lookup_validators,
    andThen, storeValue, hvalue]
  cases detectValue v <;> rfl

lemma Bare.requiredPresent_insert (h : Bare o desc) (hreq : desc.required = false)
    (x : ValueVariant) :
    { o with values := o.values.insert desc.longName x }.RequiredPresent ↔ o.RequiredPresent := by
  unfold RequiredPresent hasValue
  refine forall₂_congr fun name hname => ?_
  by_cases hn : name = desc.longName
  · subst hn
    simp [h.lookup_longNames, hreq]
  · simp [Finmap.lookup_insert_of_ne _ hn]

/-- The result of `parse` on `--n=v`, in terms of what detection makes of the text. -/
lemma Bare.parse_eq (h : Bare o desc) (heq : '=' ∉ desc.longName)
    (hreq : desc.required = false) (v program : Text) :
    o.parse [program, assignment desc.longName v] = match detectValue v with
      | .ok x    => (.ok (decide o.RequiredPresent),
          { o with values := o.values.insert desc.longName x })
      | .error _ => (.ok false, o) := by
  have hargs := h.parseArgs_eq heq v
  simp only [parse, List.drop_succ_cons, List.drop_zero, hargs]
  cases detectValue v with
  | ok x => simp only [h.requiredPresent_insert hreq]
  | error e => rfl

/-- The command line treats a text as `handle_value` does just when the two conversions agree on
it. When some required option is missing, `parse` fails anyway, which is right just for the texts
that `handle_value` cannot convert. -/
theorem parsesLikeHandleValue_iff (o : Options W) (env : Text → Option Text) (T : OptionType)
    (desc : OptionDescriptor) (v program : Text) (hname : desc.longName ≠ [])
    (heq : '=' ∉ desc.longName) (hdefault : desc.defaultValue = none)
    (henv : desc.envVar = none) (hreq : desc.required = false)
    (hvalue : o.values.lookup desc.longName = none)
    (hvalid : o.validators.lookup desc.longName = none) :
    (o.addOption env T desc).2.ParsesLikeHandleValue T program desc.longName v ↔
      if (o.addOption env T desc).2.RequiredPresent then Agrees T v else ¬ Convertible T v := by
  have hbare : Bare (o.addOption env T desc).2 desc :=
    bare_addOption hname hdefault henv hvalue hvalid
  generalize (o.addOption env T desc).2 = o' at *
  rw [← sameConversion_iff, ← convert_fails_iff]
  unfold ParsesLikeHandleValue SameConversion
  rw [hbare.handleValue_eq, hbare.parse_eq heq hreq]
  cases hc : T.convert v with
  | error e => cases detectValue v <;> split_ifs with hr <;> simp [Fails, hr]
  | ok x =>
    cases hd : detectValue v with
    | error e => split_ifs <;> simp [Fails]
    | ok y =>
      split_ifs with hr
      · simpa [hr, get] using OptionType.unwrap_eq_some_iff
      · simp [hr, Fails]

theorem parsesLikeHandleValue_names :
    (({ world := () } : Options Unit).addOption (fun _ => none) (.array .string)
      { shortName := [], longName := "names".toList }).2.ParsesLikeHandleValue (.array .string)
      "program".toList "names".toList "x,y,z".toList :=
  (parsesLikeHandleValue_iff { world := () } (fun _ => none) (.array .string)
    { shortName := [], longName := "names".toList } "x,y,z".toList "program".toList
    (by decide) (by decide) rfl rfl rfl rfl rfl).mpr
    (by rw [if_pos (by decide)]; exact ⟨by decide, by decide⟩)

/-- Detection makes an array of strings of the text that does not convert to integers. -/
theorem not_parsesLikeHandleValue_numbers :
    ¬ (({ world := () } : Options Unit).addOption (fun _ => none) (.array .int)
      { shortName := [], longName := "numbers".toList }).2.ParsesLikeHandleValue (.array .int)
      "program".toList "numbers".toList "1,invalid,3".toList := by
  intro h
  have hresult : (.ok true : Except Exn Bool) = .ok false := h
  cases hresult

end Options

end Cli
