import LibUdp.Text.Numeric
import Mathlib.Data.Finmap

/-!
# Option values

The alternatives an option can hold and the conversions from text to them: `Array_value::parse`,
`Map_value::parse` and the part of `Options::handle_value` that converts by the declared type.
-/

namespace Cli

open Text

/-! ### Exceptions -/

/-- What an operation of `Options` can throw. -/
inductive Exn where
  | optionError (what : Text)
  | parseError (what : Text)
  | validationError (what : Text)
  /-- any other class derived from `std::exception` -/
  | std (what : Text)
  /-- anything that is not a `std::exception` -/
  | other
  deriving DecidableEq

/-- Whether `catch (const std::exception &)` catches it. -/
def Exn.isStd : Exn → Bool
  | .other => false
  | _      => true

def Exn.what : Exn → Text
  | .optionError what | .parseError what | .validationError what | .std what => what
  | .other => []

/-! ### Values -/

/-- The element types `Basic_value` allows. -/
inductive ScalarType where
  | bool
  | int
  | double
  | string
  deriving DecidableEq

abbrev ScalarType.Carrier : ScalarType → Type
  | .bool   => Bool
  | .int    => Int32
  | .double => Double
  | .string => Text

instance (t : ScalarType) : DecidableEq t.Carrier :=
  match t with
  | .bool   => inferInstanceAs (DecidableEq Bool)
  | .int    => inferInstanceAs (DecidableEq Int32)
  | .double => inferInstanceAs (DecidableEq Double)
  | .string => inferInstanceAs (DecidableEq Text)

structure ArrayValue (α : Type) where
  values : List α
  deriving DecidableEq

structure MapValue (α : Type) where
  values : Finmap fun _ : Text => α

instance (α : Type) [DecidableEq α] : DecidableEq (MapValue α) := fun m n =>
  decidable_of_iff (m.values = n.values) (by cases m; cases n; simp)

/-- `Options::Value_variant`. -/
inductive ValueVariant where
  | scalar (t : ScalarType) (value : t.Carrier)
  | array (t : ScalarType) (value : ArrayValue t.Carrier)
  | map (t : ScalarType) (value : MapValue t.Carrier)
  deriving DecidableEq

/-- The types `add_option` and `get` can be instantiated at. A map of `bool` satisfies the
concept `Option_value`, but `handle_value` does not compile for it. -/
inductive OptionType where
  | scalar (t : ScalarType)
  | array (t : ScalarType)
  | map (t : ScalarType) (h : t ≠ .bool)
  deriving DecidableEq

abbrev OptionType.Carrier : OptionType → Type
  | .scalar t => t.Carrier
  | .array t  => ArrayValue t.Carrier
  | .map t _  => MapValue t.Carrier

/-- The variant alternative that holds a value of type `T`. -/
def OptionType.wrap : (T : OptionType) → T.Carrier → ValueVariant
  | .scalar t, x => .scalar t x
  | .array t, x  => .array t x
  | .map t _, x  => .map t x

/-- `std::get<T>`, with `none` for `bad_variant_access`. -/
def OptionType.unwrap : (T : OptionType) → ValueVariant → Option T.Carrier
  | .scalar t, .scalar u x => if h : u = t then some (h ▸ x) else none
  | .array t, .array u x   => if h : u = t then some (h ▸ x) else none
  | .map t _, .map u x     => if h : u = t then some (h ▸ x) else none
  | _, _ => none

@[simp] lemma OptionType.unwrap_wrap (T : OptionType) (x : T.Carrier) :
    T.unwrap (T.wrap x) = some x := by
  cases T <;> simp [wrap, unwrap]

lemma OptionType.unwrap_eq_some_iff {T : OptionType} {v : ValueVariant} {x : T.Carrier} :
    T.unwrap v = some x ↔ v = T.wrap x := by
  constructor
  · intro h
    cases T <;> cases v <;> simp only [unwrap, reduceCtorEq] at h
    all_goals
      split_ifs at h with heq
      subst heq
      simpa [wrap] using h
  · rintro rfl
    exact T.unwrap_wrap x

/-! ### Conversions -/

/-- The conversion of one trimmed array item or map value. The two class templates have the
same chain of `if constexpr`. -/
def ScalarType.readItem : (t : ScalarType) → Text → Except ConversionError t.Carrier
  | .bool, item   => .ok (item = "true".toList || item = "1".toList)
  | .int, item    => (stoi item).map Prod.fst
  | .double, item => (stod item).map Prod.fst
  | .string, item => .ok item

/-- The loop of `Array_value::parse`. -/
def ArrayValue.parseItems (t : ScalarType) : List Text → Except ConversionError (List t.Carrier)
  | []           => .ok []
  | item :: rest => do
    let value ← t.readItem (trim item)
    let values ← parseItems t rest
    return value :: values

lemma ArrayValue.parseItems_string (l : List Text) :
    ArrayValue.parseItems .string l = .ok (l.map trim) := by
  induction l with
  | nil => rfl
  | cons item rest ih =>
    rw [parseItems, ih]
    rfl

/-- `Array_value<T>::parse`. -/
def ArrayValue.parse (t : ScalarType) (input : Text) : Option (ArrayValue t.Carrier) :=
  match parseItems t (items ',' input) with
  | .ok values => some ⟨values⟩
  | .error _   => none

/-- The loop of `Map_value::parse`: items without `=` are skipped, later keys overwrite. -/
def MapValue.parsePairs (t : ScalarType) (values : Finmap fun _ : Text => t.Carrier) :
    List Text → Except ConversionError (Finmap fun _ : Text => t.Carrier)
  | []           => .ok values
  | pair :: rest =>
    if '=' ∈ pair then do
      let value ← t.readItem (trim (after '=' pair))
      parsePairs t (values.insert (trim (before '=' pair)) value) rest
    else parsePairs t values rest

/-- `Map_value<std::string, V>::parse`. -/
def MapValue.parse (t : ScalarType) (input : Text) : Option (MapValue t.Carrier) :=
  match parsePairs t ∅ (items ',' input) with
  | .ok values => some ⟨values⟩
  | .error _   => none

/-- The exception a failed standard conversion throws. -/
def ofConversion {α : Type} (function : Text) : Except ConversionError α → Except Exn α
  | .ok x    => .ok x
  | .error _ => .error (.std function)

/-- The conversion in `handle_value<T>`, before anything is stored. -/
def OptionType.convert : (T : OptionType) → Text → Except Exn T.Carrier
  | .scalar .bool, value =>
    let lowerValue := toLower value
    .ok (lowerValue = "true".toList || lowerValue = "1".toList || lowerValue = "yes".toList ||
      lowerValue = "on".toList)
  | .scalar .int, value => do
    let (result, pos) ← ofConversion "stoi".toList (stoi value)
    if pos ≠ value.length then
      throw (.parseError ("Invalid integer value: '".toList ++ value ++ "'".toList))
    return result
  | .scalar .double, value => do
    let (result, pos) ← ofConversion "stod".toList (stod value)
    if pos ≠ value.length then
      throw (.parseError ("Invalid floating-point value: '".toList ++ value ++ "'".toList))
    return result
  | .scalar .string, value => .ok value
  | .array t, value =>
    match ArrayValue.parse t value with
    | some result => .ok result
    | none => .error (.parseError ("Failed to parse array value: '".toList ++ value ++ "'".toList))
  | .map t _, value =>
    match MapValue.parse t value with
    | some result => .ok result
    | none => .error (.parseError ("Failed to parse map value: '".toList ++ value ++ "'".toList))

end Cli
