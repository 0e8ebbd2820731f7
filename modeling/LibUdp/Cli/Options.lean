import LibUdp.Cli.Value

/-!
# The command line option store

`cli::Options` and its member functions. A member function that can throw returns its result
or exception together with the object it leaves behind, since nothing is rolled back.

A validation callback is an arbitrary `std::function`, which may carry state of its own and
may throw. `W` is the type of that state, and `world` the state all callbacks see together.
-/

namespace Cli

open Text

/-- `Options::Validation_callback`. -/
abbrev ValidationCallback (W : Type) := Text → W → Except Exn Bool × W

structure OptionDescriptor where
  shortName    : Text
  longName     : Text
  description  : Text := []
  required     : Bool := false
  defaultValue : Option Text := none
  envVar       : Option Text := none
  deriving DecidableEq

structure Options (W : Type) where
  allowUnrecognized : Bool := false
  shortNames        : Finmap (fun _ : Text => OptionDescriptor) := ∅
  longNames         : Finmap (fun _ : Text => OptionDescriptor) := ∅
  values            : Finmap (fun _ : Text => ValueVariant) := ∅
  validators        : Finmap (fun _ : Text => ValidationCallback W) := ∅
  positionalArgs    : List Text := []
  world             : W

namespace Options

variable {W : Type}

/-- `Options::get_env_value`, with the environment as a parameter. -/
def getEnvValue (env : Text → Option Text) (name : Text) : Text := (env name).getD []

def hasValue (o : Options W) (name : Text) : Bool := (o.values.lookup name).isSome

/-- `Options::get<T>`. -/
def get (o : Options W) (T : OptionType) (name : Text) : Option T.Carrier :=
  (o.values.lookup name).bind T.unwrap

/-! ### Registration -/

/-- The `catch` clauses of `handle_value`. -/
def rethrow (name value : Text) : Exn → Exn
  | .parseError what      => .parseError what
  | .validationError what => .validationError what
  | .other                => .other
  | e => .parseError ("Failed to parse option '".toList ++ name ++ "' with value '".toList ++
      value ++ "': ".toList ++ e.what)

/-- `Options::handle_value<T>`. The value is stored before the validator is asked. -/
def handleValue (o : Options W) (T : OptionType) (name value : Text) :
    Except Exn Unit × Options W :=
  match T.convert value with
  | .error e => (.error (rethrow name value e), o)
  | .ok x =>
    let o := { o with values := o.values.insert name (T.wrap x) }
    match o.validators.lookup name with
    | none => (.ok (), o)
    | some callback =>
      let (result, world) := callback value o.world
      let o := { o with world }
      match result with
      | .ok true  => (.ok (), o)
      | .ok false =>
        (.error (.validationError ("Validation failed for option '".toList ++ name ++
          "' with value '".toList ++ value ++ "'".toList)), o)
      | .error e  => (.error (rethrow name value e), o)

/-- The text `add_option` stores at once: a non-empty environment value, or else the default. -/
def initialText (env : Text → Option Text) (desc : OptionDescriptor) : Option Text :=
  match desc.envVar with
  | some name =>
    if getEnvValue env name ≠ [] then some (getEnvValue env name) else desc.defaultValue
  | none => desc.defaultValue

/-- Store the descriptor under the names it has. -/
def addDescriptor (o : Options W) (desc : OptionDescriptor) : Options W :=
  let o := if desc.shortName ≠ [] then
    { o with shortNames := o.shortNames.insert desc.shortName desc } else o
  if desc.longName ≠ [] then
    { o with longNames := o.longNames.insert desc.longName desc } else o

section addDescriptor

variable (o : Options W) (desc : OptionDescriptor)

@[simp] lemma addDescriptor_allowUnrecognized :
    (o.addDescriptor desc).allowUnrecognized = o.allowUnrecognized := by
  rw [addDescriptor]
  split_ifs <;> rfl

@[simp] lemma addDescriptor_values : (o.addDescriptor desc).values = o.values := by
  rw [addDescriptor]
  split_ifs <;> rfl

@[simp] lemma addDescriptor_validators : (o.addDescriptor desc).validators = o.validators := by
  rw [addDescriptor]
  split_ifs <;> rfl

@[simp] lemma addDescriptor_world : (o.addDescriptor desc).world = o.world := by
  rw [addDescriptor]
  split_ifs <;> rfl

end addDescriptor

/-- `Options::add_option<T>`. -/
def addOption (o : Options W) (env : Text → Option Text) (T : OptionType)
    (desc : OptionDescriptor) : Except Exn Unit × Options W :=
  if desc.shortName = [] ∧ desc.longName = [] then
    (.error (.optionError "Option must have either short or long name".toList), o)
  else
    let o := o.addDescriptor desc
    match initialText env desc with
    | some text => o.handleValue T desc.longName text
    | none      => (.ok (), o)

/-- `Options::add_validation`. -/
def addValidation (o : Options W) (name : Text) (callback : ValidationCallback W) :
    Except Exn Unit × Options W :=
  if (o.longNames.lookup name).isSome then
    (.ok (), { o with validators := o.validators.insert name callback })
  else
    (.error (.optionError ("Cannot add validation for unknown option '".toList ++ name ++
      "'".toList)), o)

/-! ### Parsing -/

/-- `Options::is_option`. -/
def isOption (arg : Text) : Bool := arg.head? = some '-'

/-- `Options::validate_option`. -/
def validateOption (o : Options W) (name value : Text) : Except Exn Bool × Options W :=
  match o.validators.lookup name with
  | none          => (.ok true, o)
  | some callback =>
    let (result, world) := callback value o.world
    (result, { o with world })

/-- The value `handle_option` makes of a text, by the looks of the text alone. -/
def detectValue (value : Text) : Except ConversionError ValueVariant :=
  if value = "true".toList ∨ value = "false".toList then
    .ok (.scalar .bool (value = "true".toList))
  else if ',' ∈ value then
    if '=' ∈ value then
      match MapValue.parse .string value with
      | some result => .ok (.map .string result)
      | none        => .ok (.scalar .string value)
    else
      match ArrayValue.parse .string value with
      | some result => .ok (.array .string result)
      | none        => .ok (.scalar .string value)
  else if (fromChars value).isOk then
    (stoi value).map fun result => .scalar .int result.1
  else if '.' ∈ value then
    (stod value).map fun result => .scalar .double result.1
  else
    .ok (.scalar .string value)

/-- Go on when a step gave `true`; its `false` or its exception is the result otherwise. -/
def andThen (result : Except Exn Bool × Options W)
    (next : Options W → Except Exn Bool × Options W) : Except Exn Bool × Options W :=
  match result with
  | (.ok true, o) => next o
  | _             => result

/-- The `try` block of `handle_option`. Only a first value is converted and stored. -/
def storeValue (o : Options W) (optionName value : Text) : Except Exn Bool × Options W :=
  if o.hasValue optionName then (.ok true, o)
  else
    -- the right-hand side is evaluated before `m_values[option_name]`, so a conversion that
    -- throws leaves no entry behind
    match detectValue value with
    | .ok x    => (.ok true, { o with values := o.values.insert optionName x })
    | .error _ => (.ok false, o)

/-- The table `handle_option` looks a name up in. -/
def names (o : Options W) (isShort : Bool) : Finmap fun _ : Text => OptionDescriptor :=
  if isShort then o.shortNames else o.longNames

/-- `Options::handle_option`. -/
def handleOption (o : Options W) (name value : Text) (isShort : Bool) :
    Except Exn Bool × Options W :=
  match (o.names isShort).lookup name with
  | none      => (.ok o.allowUnrecognized, o)
  | some desc =>
    andThen (o.validateOption desc.longName value) (·.storeValue desc.longName value)

/-- The loop of `parse` over the arguments after the program name. -/
def parseArgs (o : Options W) : List Text → Except Exn Bool × Options W
  | [] => (.ok true, o)
  | arg :: rest =>
    if "--".toList.isPrefixOf arg then
      let name := arg.drop 2
      if '=' ∈ name then
        andThen (o.handleOption (before '=' name) (after '=' name) false) (parseArgs · rest)
      else
        match rest with
        | value :: rest' =>
          if !isOption value then
            andThen (o.handleOption name value false) (parseArgs · rest')
          else
            andThen (o.handleOption name "true".toList false) (parseArgs · (value :: rest'))
        | [] => andThen (o.handleOption name "true".toList false) (parseArgs · [])
    else if isOption arg ∧ 1 < arg.length then
      let name := arg.drop 1
      match rest with
      | value :: rest' =>
        if !isOption value then
          andThen (o.handleOption name value true) (parseArgs · rest')
        else
          andThen (o.handleOption name "true".toList true) (parseArgs · (value :: rest'))
      | [] => andThen (o.handleOption name "true".toList true) (parseArgs · [])
    else
      parseArgs { o with positionalArgs := o.positionalArgs ++ [arg] } rest

/-- The check after the loop: no long-named required option is without a value. -/
def RequiredPresent (o : Options W) : Prop :=
  ∀ name ∈ o.longNames.keys, ∀ desc ∈ o.longNames.lookup name,
    desc.required → o.hasValue name

instance (o : Options W) : Decidable o.RequiredPresent :=
  inferInstanceAs (Decidable (∀ name ∈ o.longNames.keys, ∀ desc ∈ o.longNames.lookup name,
    desc.required → o.hasValue name))

/-- `Options::parse`. An exception outside the `std::exception` hierarchy passes through. -/
def parse (o : Options W) (argv : List Text) : Except Exn Bool × Options W :=
  match o.parseArgs (argv.drop 1) with
  | (.ok true, o)  => (.ok (decide o.RequiredPresent), o)
  | (.ok false, o) => (.ok false, o)
  | (.error e, o)  => (if e.isStd then .ok false else .error e, o)

end Options

end Cli
