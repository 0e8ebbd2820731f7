import LibUdp.Cli.Collection
import LibUdp.Cli.Help
import LibUdp.Cli.Required
import LibUdp.Logger

/-!
# The example programs

`examples/cli_basic.cc` and `examples/cli_advanced.cc`. Both register their options, parse the
command line, and print the help or the values. Each of their options has a default, so `parse` has
nothing to store.
-/

namespace Cli

open Text

/-- How a program ends: with an exit code and what `main` has logged. -/
structure Outcome where
  exitCode : ℕ
  log      : List (Logger.Level × Text)

/-- `catch (const std::exception &e)` around the body of `main`. -/
def Exn.outcome (e : Exn) : Option Outcome :=
  if e.isStd then some ⟨1, [(.error, e.what)]⟩ else none

/-- The calls of `add_option`, up to one that throws. -/
def Options.addAll {W : Type} (env : Text → Option Text) (o : Options W) :
    List (OptionType × OptionDescriptor) → Except Exn Unit × Options W
  | []                   => (.ok (), o)
  | (T, desc) :: options =>
    match o.addOption env T desc with
    | (.ok (), o)   => o.addAll env options
    | (.error e, o) => (.error e, o)

/-- `main`, with what it prints when `parse` gives `true`. -/
def runMain (options : List (OptionType × OptionDescriptor)) (report : Options Unit → List Text)
    (width : Text → ℕ) (env : Text → Option Text) (programName : Text) (args : List Text) :
    Option Outcome :=
  match Options.addAll env { world := () } options with
  | (.error e, _) => e.outcome
  | (.ok (), o) =>
    match o.parse (programName :: args) with
    | (.error e, _)  => e.outcome
    | (.ok false, o) => some ⟨1, (o.printHelp width programName).map (.info, ·)⟩
    | (.ok true, o)  => some ⟨0, (report o).map (.info, ·)⟩

/-! ### `cli_basic.cc` -/

def verboseOption : OptionDescriptor where
  shortName    := "v".toList
  longName     := "verbose".toList
  description  := "Enable verbose output".toList
  defaultValue := some "false".toList

def portOption : OptionDescriptor where
  shortName    := "p".toList
  longName     := "port".toList
  description  := "Port number".toList
  required     := true
  defaultValue := some "8080".toList
  envVar       := some "APP_PORT".toList

def hostOption : OptionDescriptor where
  shortName    := "h".toList
  longName     := "host".toList
  description  := "Host address".toList
  defaultValue := some "localhost".toList

def basicOptions : List (OptionType × OptionDescriptor) :=
  [(.scalar .bool, verboseOption), (.scalar .int, portOption), (.scalar .string, hostOption)]

def basicReport (o : Options Unit) : List Text :=
  let verbose : Bool := (o.get (.scalar .bool) "verbose".toList).getD false
  let port : Int32 := (o.get (.scalar .int) "port".toList).getD 8080
  let host : Text := (o.get (.scalar .string) "host".toList).getD "localhost".toList
  (if verbose then ["Verbose mode enabled".toList] else []) ++
    ["Port: ".toList ++ ofInt port.toInt, "Host: ".toList ++ host]

def cliBasic := runMain basicOptions basicReport

/-! ### `cli_advanced.cc` -/

def hostsOption : OptionDescriptor where
  shortName    := []
  longName     := "hosts".toList
  description  := "List of host addresses".toList
  defaultValue := some "localhost:8080,localhost:8081".toList
  envVar       := some "APP_HOSTS".toList

def portsOption : OptionDescriptor where
  shortName    := []
  longName     := "ports".toList
  description  := "List of ports".toList
  defaultValue := some "8080,8081,8082".toList

def limitsOption : OptionDescriptor where
  shortName    := []
  longName     := "limits".toList
  description  := "Resource limits".toList
  defaultValue := some "cpu=4,memory=1024,connections=100".toList

def metadataOption : OptionDescriptor where
  shortName    := []
  longName     := "metadata".toList
  description  := "Additional metadata".toList
  defaultValue := some "env=prod,region=us-west,tier=premium".toList

def advancedOptions : List (OptionType × OptionDescriptor) :=
  [(.array .string, hostsOption), (.array .int, portsOption),
    (.map .int (by decide), limitsOption), (.map .string (by decide), metadataOption)]

def advancedReport (o : Options Unit) : List Text :=
  let hosts : Option (ArrayValue Text) := o.get (.array .string) "hosts".toList
  let ports : Option (ArrayValue Int32) := o.get (.array .int) "ports".toList
  let limits : Option (MapValue Int32) := o.get (.map .int (by decide)) "limits".toList
  (match hosts with
    | some hosts => "Configured hosts:".toList :: hosts.values.map ("  - ".toList ++ ·)
    | none       => []) ++
  (match ports with
    | some ports =>
      "Configured ports:".toList :: ports.values.map fun port => "  - ".toList ++ ofInt port.toInt
    | none       => []) ++
  (match limits with
    | some limits => "Resource limits:".toList :: limits.entries.map fun (resource, limit) =>
      "  ".toList ++ resource ++ ": ".toList ++ ofInt limit.toInt
    | none        => [])

def cliAdvanced := runMain advancedOptions advancedReport

/-! ### Options with values of their own -/

/-- The store of a program that has registered its options. -/
abbrev registeredStore (env : Text → Option Text)
    (options : List (OptionType × OptionDescriptor)) : Options Unit :=
  Options.addOptions env false () options

/-- All options named on the command line are among the given ones. -/
def Knows (options : List (OptionType × OptionDescriptor)) (args : List Text) : Prop :=
  ∀ call ∈ optionGroups (groups args), call.1 ≠ [] ∧
    ∃ p ∈ options, call.1 = p.2.nameOf call.2.2

instance (options : List (OptionType × OptionDescriptor)) (args : List Text) :
    Decidable (Knows options args) :=
  inferInstanceAs (Decidable (∀ call ∈ optionGroups (groups args), call.1 ≠ [] ∧
    ∃ p ∈ options, call.1 = p.2.nameOf call.2.2))

instance (desc desc' : OptionDescriptor) : Decidable (desc.SharesName desc') :=
  inferInstanceAs (Decidable (∃ isShort, desc.nameOf isShort ≠ [] ∧
    desc.nameOf isShort = desc'.nameOf isShort))

/-- The options have long names, share no names, and each has a default or an environment variable
that is converted. -/
structure Settled (env : Text → Option Text) (options : List (OptionType × OptionDescriptor)) :
    Prop where
  named : ∀ p ∈ options, p.2.longName ≠ []
  distinct : options.Pairwise fun p q => ¬ p.2.SharesName q.2
  value : ∀ p ∈ options, (Options.initialValue env p.1 p.2).isSome

namespace Settled

open Options

variable {o : Options Unit} {env : Text → Option Text} {n : Text}
  {options : List (OptionType × OptionDescriptor)} {p : OptionType × OptionDescriptor}

lemma head (h : Settled env (p :: options)) :
    p.2.longName ≠ [] ∧ (initialValue env p.1 p.2).isSome ∧ Settled env options :=
  ⟨h.named p List.mem_cons_self, h.value p List.mem_cons_self,
    ⟨fun q hq => h.named q (List.mem_cons_of_mem p hq), h.distinct.of_cons,
      fun q hq => h.value q (List.mem_cons_of_mem p hq)⟩⟩

lemma fst_addOption (hvalid : o.validators = ∅) (hname : p.2.longName ≠ [])
    (hvalue : (initialValue env p.1 p.2).isSome) : (o.addOption env p.1 p.2).1 = .ok () := by
  rw [addOption, if_neg fun h => hname h.2]
  cases htext : initialText env p.2 with
  | none => rfl
  | some text =>
    refine (fst_handleValue_eq_ok_iff ..).mpr ⟨?_, ?_⟩
    · rw [initialValue, htext, Option.bind_some] at hvalue
      cases hconvert : p.1.convert text with
      | ok x => exact ⟨x, rfl⟩
      | error e =>
        rw [hconvert] at hvalue
        cases hvalue
    · rw [Accepts, validateOption, addDescriptor_validators, hvalid]
      rfl

lemma addAll_cons_of_ok (hfirst : (o.addOption env p.1 p.2).1 = .ok ()) :
    o.addAll env (p :: options) = (o.addOption env p.1 p.2).2.addAll env options := by
  rw [Options.addAll]
  generalize o.addOption env p.1 p.2 = result at hfirst ⊢
  obtain ⟨first, o'⟩ := result
  cases hfirst
  rfl

lemma addAll_cons_of_error {e : Exn} (hfirst : (o.addOption env p.1 p.2).1 = .error e) :
    o.addAll env (p :: options) = (.error e, (o.addOption env p.1 p.2).2) := by
  rw [Options.addAll]
  generalize o.addOption env p.1 p.2 = result at hfirst ⊢
  obtain ⟨first, o'⟩ := result
  cases hfirst
  rfl

/-- Nothing is thrown when the options are registered. -/
lemma addAll (hvalid : o.validators = ∅) (h : Settled env options) :
    o.addAll env options =
      (.ok (), registerAll env o (options.map fun p => .addOption p.1 p.2)) := by
  induction options generalizing o with
  | nil => rfl
  | cons p options ih =>
    obtain ⟨hname, hvalue, hrest⟩ := h.head
    rw [addAll_cons_of_ok (fst_addOption hvalid hname hvalue)]
    exact ih ((validators_addOption ..).trans hvalid) hrest

lemma allowUnrecognized_registeredStore (options : List (OptionType × OptionDescriptor)) :
    (registeredStore env options).allowUnrecognized = false := by
  induction options using List.reverseRecOn with
  | nil => rfl
  | append_singleton options p ih =>
    rw [registeredStore, addOptions_concat]
    by_cases hnone : p.2.shortName = [] ∧ p.2.longName = []
    · rw [addOption, if_pos hnone, ih]
    · obtain ⟨world', hworld⟩ := snd_addOption (registeredStore env options) env p.1 p.2 hnone
      rw [hworld]
      exact (addDescriptor_allowUnrecognized ..).trans ih

lemma nodup (h : Settled env options) : (options.map fun p => p.2.longName).Nodup := by
  rw [List.Nodup, List.pairwise_map]
  refine h.distinct.imp_of_mem fun hp hq hshares heq => hshares ⟨false, h.named _ hp, heq⟩

variable (h : Settled env options)
include h

lemma lookup_values (hp : p ∈ options) :
    (registeredStore env options).values.lookup p.2.longName =
      initialValue env p.1 p.2 := by
  have hoptions := registered_map_addOption (W := Unit) options
  refine lookup_values_of_nodup ?_ ?_ (hoptions.symm ▸ hp)
  · rw [hoptions]
    exact fun q hq hempty => h.named q hq hempty.2
  · rw [hoptions]
    exact h.nodup

lemma longNameOf_eq_some_iff {isShort : Bool} {name : Text} :
    (registeredStore env options).longNameOf isShort name = some n ↔
      name ≠ [] ∧ ∃ p ∈ options, name = p.2.nameOf isShort ∧ p.2.longName = n := by
  have hoptions := registered_map_addOption (W := Unit) options
  rw [registeredStore, addOptions, longNameOf_registerAll (hoptions.symm ▸ h.distinct), hoptions]

/-- Every option that can be named has its value. -/
lemma hasValue {isShort : Bool} {name : Text}
    (hname : (registeredStore env options).longNameOf isShort name = some n) :
    ∃ x, (registeredStore env options).values.lookup n = some x := by
  obtain ⟨-, p, hp, -, rfl⟩ := h.longNameOf_eq_some_iff.mp hname
  rw [h.lookup_values hp]
  exact Option.isSome_iff_exists.mp (h.value p hp)

omit h in
lemma validators_registeredStore : (registeredStore env options).validators = ∅ :=
  validators_addOptions options

omit h in
lemma hasPure : (registeredStore env options).HasPure := by
  intro m callback hcallback
  simp [validators_registeredStore] at hcallback

/-- No group is turned away but for an option that is not there. -/
lemma runGroups_eq_true_iff {args : List Text} :
    ((registeredStore env options).runGroups (groups args)).1 = .ok true ↔
      Knows options args := by
  rw [hasPure.runGroups_eq_true_iff]
  constructor
  · rintro ⟨hgroups, -⟩ ⟨name, value, isShort⟩ hcall
    obtain ⟨g, hg, hopt⟩ := List.mem_filterMap.mp hcall
    have hsupplied : ∃ m, (registeredStore env options).Supplies m g := by
      by_contra hnone
      have hallowed := hgroups g hg (not_exists.mp hnone) (hopt ▸ rfl)
      rw [allowUnrecognized_registeredStore] at hallowed
      cases hallowed
    obtain ⟨m, name', value', isShort', hopt', hname⟩ := hsupplied
    cases hopt.symm.trans hopt'
    obtain ⟨hne, p, hp, heq, -⟩ := h.longNameOf_eq_some_iff.mp hname
    exact ⟨hne, p, hp, heq⟩
  · intro hknows
    refine ⟨fun g hg hnone hopt => ?_, fun m => ⟨fun value _ => ?_, fun hempty value hvalue => ?_⟩⟩
    · obtain ⟨call, hopt⟩ := Option.isSome_iff_exists.mp hopt
      obtain ⟨hne, p, hp, heq⟩ := hknows call (List.mem_filterMap.mpr ⟨g, hg, hopt⟩)
      refine absurd ⟨call.1, call.2.1, call.2.2, hopt, ?_⟩ (hnone p.2.longName)
      exact h.longNameOf_eq_some_iff.mpr ⟨hne, p, hp, heq, rfl⟩
    · rw [Accepts, validateOption, validators_registeredStore]
      rfl
    · obtain ⟨call, -, hcall⟩ := List.exists_of_findSome?_eq_some hvalue
      simp only [Option.ite_none_right_eq_some] at hcall
      obtain ⟨x, hx⟩ := h.hasValue hcall.1
      rw [hasValue_eq_false_iff, hx] at hempty
      cases hempty

lemma lookup_values_parse {argv : List Text}
    (htrue : ((registeredStore env options).parse argv).1 = .ok true) (hp : p ∈ options) :
    ((registeredStore env options).parse argv).2.values.lookup p.2.longName =
      initialValue env p.1 p.2 := by
  obtain ⟨x, hx⟩ := Option.isSome_iff_exists.mp (h.value p hp)
  rw [Options.lookup_values_parse htrue, h.lookup_values hp, hx, Option.some_or]

lemma parse_knows_iff (argv : List Text) :
    ((registeredStore env options).parse argv).1 = .ok true ↔
      Knows options (argv.drop 1) := by
  rw [fst_parse_eq_true_iff, h.runGroups_eq_true_iff]
  refine and_iff_left_of_imp fun hknows name _ desc hdesc _ => ?_
  rw [longNames_runGroups] at hdesc
  have hname : (registeredStore env options).longNameOf false name = some desc.longName := by
    rw [longNameOf, names, if_neg Bool.false_ne_true, hdesc, Option.map_some]
  obtain ⟨x, hx⟩ := h.hasValue hname
  rw [hasValue_eq_true_iff, lookup_values_runGroups (h.runGroups_eq_true_iff.mpr hknows),
    ((keyed_addOptions options).longName_eq hdesc).1, hx]
  exact ⟨x, rfl⟩

lemma longNames_eq_some_iff {name : Text} {desc : OptionDescriptor} :
    (registeredStore env options).longNames.lookup name = some desc ↔
      desc ∈ options.map Prod.snd ∧ desc.longName = name := by
  have hnamed := h.named
  have hnodup := h.nodup
  clear h
  induction options using List.reverseRecOn with
  | nil => simp [registeredStore, addOptions, registerAll]
  | append_singleton options p ih =>
    rw [List.forall_mem_append, List.forall_mem_singleton] at hnamed
    rw [List.map_append, List.nodup_append] at hnodup
    rw [registeredStore, addOptions_concat, longNames_addOption, List.map_append, List.mem_append,
      List.map_singleton, List.mem_singleton]
    split_ifs with hp
    · constructor
      · rintro ⟨⟩
        exact ⟨.inr rfl, hp.2.symm⟩
      · rintro ⟨hdesc | rfl, hname⟩
        · obtain ⟨q, hq, rfl⟩ := List.mem_map.mp hdesc
          exact absurd (hname.trans hp.2) (hnodup.2.2 _ (List.mem_map_of_mem hq) _ (by simp))
        · rfl
    · refine (ih hnamed.1 hnodup.1).trans (and_congr_left fun hname => (or_iff_left ?_).symm)
      rintro rfl
      exact hp ⟨hname ▸ hnamed.2, hname.symm⟩

/-- What the help of the program lists. -/
lemma sortedDescriptors_eq {descriptors : List OptionDescriptor}
    (hsorted : descriptors.Pairwise fun a b => a.longName < b.longName)
    (hperm : descriptors.Perm (options.map Prod.snd)) :
    (registeredStore env options).sortedDescriptors = descriptors := by
  refine (keyed_addOptions options).sortedDescriptors_eq hsorted fun desc => ?_
  rw [h.longNames_eq_some_iff, hperm.mem_iff]
  exact (and_iff_left rfl).symm

/-- The program prints what it makes of the values from registration, or its help when the command
line names an option that is not there. -/
lemma exists_runMain_eq (report : Options Unit → List Text) (width : Text → ℕ)
    (programName : Text) (args : List Text) : ∃ o : Options Unit,
      (∀ p ∈ options, o.values.lookup p.2.longName = initialValue env p.1 p.2) ∧
      runMain options report width env programName args =
        if Knows options args then some ⟨0, (report o).map (.info, ·)⟩
        else some ⟨1, ((registeredStore env options).printHelp width programName).map
          (.info, ·)⟩ := by
  have hadd : Options.addAll env { world := () } options = (.ok (), registeredStore env options) :=
    addAll rfl h
  have hparse := h.parse_knows_iff (programName :: args)
  rw [List.drop_one, List.tail_cons] at hparse
  have hpure : (registeredStore env options).HasPure := hasPure
  obtain ⟨b, hb⟩ := hpure.exists_parse_eq (programName :: args)
  by_cases hknows : Knows options args
  · refine ⟨_, fun p hp => h.lookup_values_parse (hparse.mpr hknows) hp, ?_⟩
    have htrue : (registeredStore env options).parse (programName :: args) =
        (.ok true, ((registeredStore env options).parse (programName :: args)).2) :=
      Prod.ext (hparse.mpr hknows) rfl
    rw [runMain, hadd, if_pos hknows]
    dsimp only
    rw [htrue]
  · refine ⟨registeredStore env options, fun p hp => h.lookup_values hp, ?_⟩
    have hfalse : (registeredStore env options).parse (programName :: args) =
        (.ok false, ((registeredStore env options).parse (programName :: args)).2) := by
      refine Prod.ext ?_ rfl
      cases b with
      | true => exact absurd (hparse.mp hb) hknows
      | false => exact hb
    rw [runMain, hadd, if_neg hknows]
    dsimp only
    rw [hfalse]
    dsimp only
    rw [printHelp_parse]

end Settled

/-! ### What the programs print -/

/-- The text that an environment variable gives, or else the default. -/
def envOr (env : Text → Option Text) (name default : Text) : Text :=
  if Options.getEnvValue env name ≠ [] then Options.getEnvValue env name else default

variable {env : Text → Option Text}

lemma initialText_portOption :
    Options.initialText env portOption = some (envOr env "APP_PORT".toList "8080".toList) := by
  rw [envOr, apply_ite some]
  rfl

lemma initialText_hostsOption : Options.initialText env hostsOption =
    some (envOr env "APP_HOSTS".toList "localhost:8080,localhost:8081".toList) := by
  rw [envOr, apply_ite some]
  rfl

lemma basicOptions_settled {text : Text} {port : Int32}
    (htext : Options.initialText env portOption = some text)
    (h : (OptionType.scalar .int).convert text = .ok port) : Settled env basicOptions where
  named := by decide
  distinct := by decide
  value := by
    intro p hp
    simp only [basicOptions, List.mem_cons, List.not_mem_nil, or_false] at hp
    rcases hp with rfl | rfl | rfl
    · rfl
    · rw [Options.initialValue, htext, Option.bind_some, h]
      rfl
    · rfl

lemma advancedOptions_settled : Settled env advancedOptions where
  named := by decide
  distinct := by decide
  value := by
    intro p hp
    simp only [advancedOptions, List.mem_cons, List.not_mem_nil, or_false] at hp
    rcases hp with rfl | rfl | rfl | rfl
    · rw [Options.initialValue, initialText_hostsOption, Option.bind_some, OptionType.convert,
        ArrayValue.parse, ArrayValue.parseItems_string]
      rfl
    · rfl
    · rfl
    · rfl

lemma isStd_of_ofConversion {α : Type} {function message : Text} {length : ℕ}
    {result : Except ConversionError (α × ℕ)} {e : Exn}
    (h : (do
      let (x, pos) ← ofConversion function result
      if pos ≠ length then throw (.parseError message)
      return x) = Except.error e) : e.isStd = true := by
  cases result with
  | error _ =>
    cases h
    rfl
  | ok x =>
    simp only [ofConversion, bind, Except.bind] at h
    split_ifs at h
    · cases h
      rfl
    · cases h

/-- What a conversion throws is a standard exception. -/
lemma OptionType.isStd_of_convert {T : OptionType} {text : Text} {e : Exn}
    (h : T.convert text = .error e) : e.isStd = true := by
  cases T with
  | scalar t =>
    cases t with
    | bool => cases h
    | string => cases h
    | int => exact isStd_of_ofConversion h
    | double => exact isStd_of_ofConversion h
  | array t =>
    rw [convert] at h
    split at h
    · cases h
    · cases h
      rfl
  | map t ht =>
    rw [convert] at h
    split at h
    · cases h
    · cases h
      rfl

lemma Options.isStd_rethrow {name text : Text} {e : Exn} (h : e.isStd = true) :
    (rethrow name text e).isStd = true := by
  cases e <;> first | rfl | exact h

lemma Options.fst_addOption_of_error {W : Type} {o : Options W} {T : OptionType}
    {desc : OptionDescriptor} {text : Text} {e : Exn} (hname : desc.longName ≠ [])
    (htext : initialText env desc = some text) (h : T.convert text = .error e) :
    (o.addOption env T desc).1 = .error (rethrow desc.longName text e) := by
  rw [addOption, if_neg fun hnone => hname hnone.2, htext]
  dsimp only
  rw [handleValue, h]

lemma basicReport_eq {o : Options Unit} {port : Int32}
    (hverbose : o.values.lookup "verbose".toList = some (.scalar .bool false))
    (hport : o.values.lookup "port".toList = some (.scalar .int port))
    (hhost : o.values.lookup "host".toList = some (.scalar .string "localhost".toList)) :
    basicReport o = ["Port: ".toList ++ ofInt port.toInt, "Host: localhost".toList] := by
  rw [basicReport, Options.get, Options.get, Options.get, hverbose, hport, hhost]
  rfl

/-- `cli_basic` fails when `APP_PORT` is set and is no integer. Otherwise it prints the port from
there or 8080 and the default host for every command line that names nothing but its options,
whatever the command line gives for them, and the help for every other one. -/
theorem cliBasic_eq (width : Text → ℕ) (env : Text → Option Text) (programName : Text)
    (args : List Text) : cliBasic width env programName args =
      let text := envOr env "APP_PORT".toList "8080".toList
      match (OptionType.scalar .int).convert text with
      | .error e => some ⟨1, [(.error, (Options.rethrow "port".toList text e).what)]⟩
      | .ok port =>
        if Knows basicOptions args then
          some ⟨0, [(.info, "Port: ".toList ++ ofInt (Int32.toInt port)),
            (.info, "Host: localhost".toList)]⟩
        else
          some ⟨1, (helpMessages width programName [hostOption, portOption, verboseOption]).map
            (.info, ·)⟩ := by
  have htext := @initialText_portOption env
  dsimp only
  generalize envOr env "APP_PORT".toList "8080".toList = text at htext ⊢
  cases hconvert : (OptionType.scalar .int).convert text with
  | error e =>
    have hnamed : verboseOption.longName ≠ [] := by decide
    have hverbose : (Options.addOption { world := () } env (.scalar .bool) verboseOption).1 =
        .ok () := @Settled.fst_addOption _ _ (_, _) rfl hnamed rfl
    rw [cliBasic, runMain, basicOptions, Settled.addAll_cons_of_ok hverbose,
      Settled.addAll_cons_of_error (Options.fst_addOption_of_error (by decide) htext hconvert)]
    dsimp only
    rw [Exn.outcome, if_pos (Options.isStd_rethrow (OptionType.isStd_of_convert hconvert))]
    rfl
  | ok port =>
    have hsettled := basicOptions_settled htext hconvert
    obtain ⟨o, hvalues, hmain⟩ :=
      hsettled.exists_runMain_eq basicReport width programName args
    simp only [basicOptions, List.forall_mem_cons] at hvalues
    obtain ⟨hverbose, hport, hhost, -⟩ := hvalues
    rw [Options.initialValue, htext, Option.bind_some, hconvert] at hport
    have hsorted : [hostOption, portOption, verboseOption].Pairwise
        fun a b => a.longName < b.longName := by decide
    rw [cliBasic, hmain, basicReport_eq hverbose hport hhost, Options.printHelp,
      hsettled.sortedDescriptors_eq hsorted]
    · rfl
    · decide

/-- The hosts, as the loop over the array prints them. -/
def hostLines (text : Text) : List Text := (items ',' text).map ("  - ".toList ++ trim ·)

/-- The lines for the options that no environment variable is asked for. -/
def fixedLines : List Text :=
  ["Configured ports:", "  - 8080", "  - 8081", "  - 8082", "Resource limits:",
    "  connections: 100", "  cpu: 4", "  memory: 1024"].map String.toList

/-- What the default of `limits` is parsed as. -/
def defaultLimits : MapValue Int32 where
  values := ((Finmap.insert "cpu".toList 4 ∅).insert "memory".toList 1024).insert
    "connections".toList 100

lemma entries_defaultLimits : defaultLimits.entries =
    [("connections".toList, 100), ("cpu".toList, 4), ("memory".toList, 1024)] :=
  MapValue.entries_foldl_insert [("cpu".toList, 4), ("memory".toList, 1024),
    ("connections".toList, 100)] (by decide) (by decide)

/-- `cli_advanced` prints the hosts from `APP_HOSTS` or the two default hosts, the default ports,
and the default limits in the order of their names, for every command line that names nothing but
its options, whatever the command line gives for them, and the help for every other one. -/
theorem cliAdvanced_eq (width : Text → ℕ) (env : Text → Option Text) (programName : Text)
    (args : List Text) : cliAdvanced width env programName args =
      if Knows advancedOptions args then
        some ⟨0, ("Configured hosts:".toList ::
          hostLines (envOr env "APP_HOSTS".toList "localhost:8080,localhost:8081".toList) ++
            fixedLines).map (.info, ·)⟩
      else
        some ⟨1, (helpMessages width programName
          [hostsOption, limitsOption, metadataOption, portsOption]).map (.info, ·)⟩ := by
  have htext := @initialText_hostsOption env
  generalize envOr env "APP_HOSTS".toList "localhost:8080,localhost:8081".toList = text at htext ⊢
  have hsettled := @advancedOptions_settled env
  obtain ⟨o, hvalues, hmain⟩ :=
    hsettled.exists_runMain_eq advancedReport width programName args
  simp only [advancedOptions, List.forall_mem_cons] at hvalues
  obtain ⟨hhosts, hports, hlimits, -⟩ := hvalues
  rw [Options.initialValue, htext, Option.bind_some, OptionType.convert, ArrayValue.parse,
    ArrayValue.parseItems_string] at hhosts
  have hreport : advancedReport o =
      "Configured hosts:".toList :: hostLines text ++ fixedLines := by
    have hhosts : o.get (.array .string) "hosts".toList = some ⟨(items ',' text).map trim⟩ :=
      congrArg (Option.bind · (OptionType.unwrap (.array .string))) hhosts
    have hports : o.get (.array .int) "ports".toList = some ⟨[8080, 8081, 8082]⟩ :=
      congrArg (Option.bind · (OptionType.unwrap (.array .int))) hports
    have hlimits : o.get (.map .int (by decide)) "limits".toList = some defaultLimits :=
      congrArg (Option.bind · (OptionType.unwrap (.map .int (by decide)))) hlimits
    rw [advancedReport, hhosts, hports, hlimits]
    dsimp only
    rw [entries_defaultLimits, hostLines, List.map_map, List.append_assoc]
    rfl
  have hsorted : [hostsOption, limitsOption, metadataOption, portsOption].Pairwise
      fun a b => a.longName < b.longName := by decide
  rw [cliAdvanced, hmain, hreport, Options.printHelp, hsettled.sortedDescriptors_eq hsorted]
  decide

end Cli
