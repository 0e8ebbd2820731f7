import LibUdp.Cli.Separation

/-!
# Required options

The check for required options goes over the long names only, and it asks for some value under the
long name, wherever that value has come from. Here it is recorded which registration and which name
on the command line a value has come from.
-/

namespace Cli

open Text

/-- A name that `parse` can find on the command line: after two dashes it ends at the first `=`,
after one dash it does not start with another one. -/
def Spellable (isShort : Bool) (name : Text) : Prop :=
  if isShort then name ≠ [] ∧ name.head? ≠ some '-' else '=' ∉ name

lemma Splits.spellable {args : List Text} {gs : List Group} (h : Splits args gs) :
    ∀ call ∈ optionGroups gs, Spellable call.2.2 call.1 := by
  induction h with
  | nil => exact fun _ h => absurd h List.not_mem_nil
  | assigned hname _ ih => exact List.forall_mem_cons.mpr ⟨hname, ih⟩
  | long hname _ _ ih => exact List.forall_mem_cons.mpr ⟨hname, ih⟩
  | short hne hname _ _ ih => exact List.forall_mem_cons.mpr ⟨⟨hne, hname⟩, ih⟩
  | longAlone hname _ _ ih => exact List.forall_mem_cons.mpr ⟨hname, ih⟩
  | shortAlone hne hname _ _ ih => exact List.forall_mem_cons.mpr ⟨⟨hne, hname⟩, ih⟩
  | positional _ _ ih => exact ih

namespace Options

variable {W : Type} {o : Options W} {env : Text → Option Text} {n : Text} {gs : List Group}
  {ps : List (OptionType × OptionDescriptor)} {p : OptionType × OptionDescriptor}

/-! ### Where a value comes from -/

/-- A new store in which the options are registered one after the other. -/
def addOptions (env : Text → Option Text) (allowUnrecognized : Bool) (world : W)
    (ps : List (OptionType × OptionDescriptor)) : Options W :=
  registerAll env { allowUnrecognized, world } (ps.map fun p => .addOption p.1 p.2)

/-- The first call of `handle_option` for the option with long name `n`: the name it is called by,
the text, and whether the name is short. -/
def firstCall (o : Options W) (n : Text) (gs : List Group) : Option (Text × Text × Bool) :=
  (optionGroups gs).find? fun call => o.longNameOf call.2.2 call.1 = some n

/-- After `parse` the option has a value. It is the one that its environment variable or default
was stored as, or else comes from the first occurrence, which is written with one of its names. -/
def HasOwnValue (env : Text → Option Text) (ps : List (OptionType × OptionDescriptor))
    (o : Options W) (argv : List Text) (p : OptionType × OptionDescriptor) : Prop :=
  (o.parse argv).2.hasValue p.2.longName ∧
    (initialSource env ps p.2.longName = some p ∨
      initialSource env ps p.2.longName = none ∧ ∃ name value isShort,
        o.firstCall p.2.longName (groups (argv.drop 1)) = some (name, value, isShort) ∧
          name = p.2.nameOf isShort)

lemma firstText_eq_firstCall (o : Options W) (n : Text) (gs : List Group) :
    o.firstText n gs = (o.firstCall n gs).map fun call => call.2.1 := by
  rw [firstText, firstCall, List.find?_eq_findSome?_guard, List.map_findSome?]
  congr 1
  funext call
  rw [Function.comp_apply, Option.guard]
  split_ifs <;> simp_all

section addOptions

variable {allowUnrecognized : Bool} {world : W}

lemma addOptions_concat (ps : List (OptionType × OptionDescriptor))
    (p : OptionType × OptionDescriptor) : addOptions env allowUnrecognized world (ps ++ [p]) =
      ((addOptions env allowUnrecognized world ps).addOption env p.1 p.2).2 := by
  rw [addOptions, List.map_append, List.map_singleton, registerAll_concat]
  rfl

lemma validators_addOptions (ps : List (OptionType × OptionDescriptor)) :
    (addOptions env allowUnrecognized world ps).validators = ∅ := by
  induction ps using List.reverseRecOn with
  | nil => rfl
  | append_singleton ps p ih => rw [addOptions_concat, validators_addOption, ih]

lemma registered_map_addOption (ps : List (OptionType × OptionDescriptor)) :
    registered (W := W) (ps.map fun p => .addOption p.1 p.2) = ps := by
  rw [registered, List.filterMap_map]
  exact List.filterMap_some

lemma lookup_values_addOptions (h : ∀ p ∈ ps, ¬ (p.2.shortName = [] ∧ p.2.longName = []))
    (n : Text) : (addOptions env allowUnrecognized world ps).values.lookup n =
      (initialSource env ps n).bind fun p => initialValue env p.1 p.2 := by
  have hps := registered_map_addOption (W := W) ps
  rw [addOptions, lookup_values_registerAll (hps.symm ▸ h), hps]

lemma exec_registerAll (env : Text → Option Text) (o : Options W) (rs : List (Registration W)) :
    Run.exec step o (rs.map (.register env)) = some (registerAll env o rs) := by
  induction rs generalizing o with
  | nil => rfl
  | cons r rs ih =>
    rw [List.map_cons, Run.exec_cons]
    exact ih _

lemma keyed_addOptions (ps : List (OptionType × OptionDescriptor)) :
    (addOptions env allowUnrecognized world ps).Keyed :=
  Keyed.visits ⟨_, List.prefix_rfl, exec_registerAll env _ _⟩ (.init _ _)

end addOptions

/-! ### Calls on the command line -/

/-- The option is one that `parse` asks a value for, and it has none yet. -/
def Missing (o : Options W) (n : Text) : Prop :=
  (∃ desc, o.longNames.lookup n = some desc ∧ desc.required = true) ∧ o.values.lookup n = none

/-- The option can be given a value on the command line. -/
def Writable (o : Options W) (n : Text) : Prop :=
  ∃ name isShort, Spellable isShort name ∧ o.longNameOf isShort name = some n

lemma writable_of_firstCall {args : List Text} {call : Text × Text × Bool}
    (h : o.firstCall n (groups args) = some call) :
    Spellable call.2.2 call.1 ∧ o.longNameOf call.2.2 call.1 = some n := by
  have hmem := List.mem_of_find?_eq_some h
  have hname := List.find?_some h
  exact ⟨(splits_groups args).spellable call hmem, by simpa using hname⟩

/-- What `parse` leaves when it gives `true`. -/
lemma lookup_values_parse {argv : List Text} (h : (o.parse argv).1 = .ok true) (n : Text) :
    (o.parse argv).2.values.lookup n = (o.values.lookup n).or
      ((o.firstCall n (groups (argv.drop 1))).bind fun call => detected call.2.1) := by
  have hrun := ((fst_parse_eq_true_iff o argv).mp h).1
  rw [snd_parse, lookup_values_runGroups hrun, firstText_eq_firstCall, Option.bind_map]
  rfl

/-- `parse` gives `true` when the loop comes to its end and every option that is asked for has a
value then. -/
lemma fst_parse_eq_true_iff_required {argv : List Text} : (o.parse argv).1 = .ok true ↔
    (o.runGroups (groups (argv.drop 1))).1 = .ok true ∧ ∀ n desc,
      o.longNames.lookup n = some desc → desc.required = true →
        (o.parse argv).2.hasValue n = true := by
  rw [fst_parse_eq_true_iff, snd_parse, RequiredPresent, longNames_runGroups]
  refine and_congr_right fun _ => ⟨fun h n desc hdesc => ?_, fun h n _ desc hdesc => h n desc hdesc⟩
  exact h n (Finmap.mem_keys.mpr (Finmap.mem_of_lookup_eq_some hdesc)) desc hdesc

/-- The first call for an option that was missing. -/
lemma Missing.exists_firstCall (hmissing : o.Missing n) {argv : List Text}
    (h : (o.parse argv).1 = .ok true) :
    ∃ call, o.firstCall n (groups (argv.drop 1)) = some call := by
  obtain ⟨⟨desc, hdesc, hrequired⟩, hnone⟩ := hmissing
  have hvalue := (fst_parse_eq_true_iff_required.mp h).2 n desc hdesc hrequired
  obtain ⟨x, hx⟩ := hasValue_eq_true_iff.mp hvalue
  rw [lookup_values_parse h, hnone, Option.none_or] at hx
  obtain ⟨call, hcall, -⟩ := Option.bind_eq_some_iff.mp hx
  exact ⟨call, hcall⟩

/-- The option gets its value from itself: its own environment variable or default is stored, or
nothing is stored, the check asks for it, and no short name but its own is one for it. -/
def Assured (env : Text → Option Text) (ps : List (OptionType × OptionDescriptor)) (o : Options W)
    (p : OptionType × OptionDescriptor) : Prop :=
  initialSource env ps p.2.longName = some p ∨
    initialSource env ps p.2.longName = none ∧ o.Missing p.2.longName ∧
      ∀ name, Spellable true name → o.longNameOf true name = some p.2.longName →
        name = p.2.shortName

section addOptions

variable {allowUnrecognized : Bool} {world : W} {argv : List Text}

lemma hasOwnValue_of_assured (hnamed : ∀ p ∈ ps, ¬ (p.2.shortName = [] ∧ p.2.longName = []))
    (hassured : Assured env ps (addOptions env allowUnrecognized world ps) p)
    (h : ((addOptions env allowUnrecognized world ps).parse argv).1 = .ok true) :
    HasOwnValue env ps (addOptions env allowUnrecognized world ps) argv p := by
  rcases hassured with hsource | ⟨hnone, hmissing, hown⟩
  · refine ⟨?_, .inl hsource⟩
    have hvalue : (initialValue env p.1 p.2).isSome := by
      have hp := List.find?_some hsource
      simp only [decide_eq_true_eq] at hp
      exact hp.2
    obtain ⟨x, hx⟩ := Option.isSome_iff_exists.mp hvalue
    rw [hasValue_eq_true_iff, lookup_values_parse h, lookup_values_addOptions hnamed, hsource,
      Option.bind_some, hx]
    exact ⟨x, Option.some_or⟩
  · obtain ⟨⟨name, value, isShort⟩, hcall⟩ := hmissing.exists_firstCall h
    obtain ⟨desc, hdesc, hrequired⟩ := hmissing.1
    refine ⟨(fst_parse_eq_true_iff_required.mp h).2 _ desc hdesc hrequired,
      .inr ⟨hnone, name, value, isShort, hcall, ?_⟩⟩
    obtain ⟨hspell, hname⟩ := writable_of_firstCall hcall
    cases isShort with
    | false => exact (keyed_addOptions ps name _ hname).1
    | true => exact hown name hspell hname

end addOptions

/-! ### A command line for the missing options -/

/-- `f` gives every missing option a name on the command line. -/
def Spells (o : Options W) (f : Text → Text × Bool) : Prop :=
  ∀ m, o.Missing m → Spellable (f m).2 (f m).1 ∧ o.longNameOf (f m).2 (f m).1 = some m

/-- The group that gives an option the value `true`, by one of its names. -/
def giveTrue (call : Text × Bool) : Group :=
  if call.2 then .short call.1 "true".toList else .assigned call.1 "true".toList

lemma option?_giveTrue (call : Text × Bool) :
    (giveTrue call).option? = some (call.1, "true".toList, call.2) := by
  obtain ⟨name, isShort⟩ := call
  cases isShort <;> rfl

lemma splits_giveTrue {calls : List (Text × Bool)} (h : ∀ call ∈ calls, Spellable call.2 call.1) :
    Splits ((calls.map giveTrue).flatMap Group.tokens) (calls.map giveTrue) := by
  induction calls with
  | nil => exact .nil
  | cons call calls ih =>
    obtain ⟨name, isShort⟩ := call
    rw [List.forall_mem_cons] at h
    cases isShort with
    | false => exact .assigned h.1 (ih h.2)
    | true => exact .short h.1.1 h.1.2 rfl (ih h.2)

variable {f : Text → Text × Bool} {ms : List Text}

/-- One option is written in another way. -/
lemma Spells.update (h : o.Spells f) {name : Text} {isShort : Bool}
    (hspell : Spellable isShort name) (hname : o.longNameOf isShort name = some n) :
    o.Spells (Function.update f n (name, isShort)) := by
  intro m hm
  by_cases hmn : m = n
  · subst hmn
    rw [Function.update_self]
    exact ⟨hspell, hname⟩
  · rw [Function.update_of_ne hmn]
    exact h m hm

lemma exists_spells (h : ∀ m, o.Missing m → o.Writable m) : ∃ f, o.Spells f := by
  choose! name isShort hname using h
  exact ⟨fun m => (name m, isShort m), hname⟩

lemma runGroups_giveTrue (hvalid : o.validators = ∅)
    (hf : ∀ m ∈ ms, o.longNameOf (f m).2 (f m).1 = some m) :
    (o.runGroups ((ms.map f).map giveTrue)).1 = .ok true := by
  induction ms generalizing o with
  | nil => rfl
  | cons m ms ih =>
    rw [List.forall_mem_cons] at hf
    have hfirst : (o.handleGroup (giveTrue (f m))).1 = .ok true := by
      rw [handleGroup, option?_giveTrue]
      dsimp only
      rw [handleOption_eq, hf.1]
      simp only [validateOption, hvalid, Finmap.lookup_empty, andThen, storeValue]
      cases o.hasValue m <;> rfl
    refine fst_runGroups_cons.mpr ⟨hfirst, ih ?_ fun m' hm' => ?_⟩
    · rw [validators_handleGroup, hvalid]
    · rw [(Extends.handleGroup o _).longNameOf]
      exact hf.2 m' hm'

lemma firstCall_giveTrue (hf : ∀ m ∈ ms, o.longNameOf (f m).2 (f m).1 = some m) (n : Text) :
    o.firstCall n ((ms.map f).map giveTrue) =
      if n ∈ ms then some ((f n).1, "true".toList, (f n).2) else none := by
  induction ms with
  | nil => rfl
  | cons m ms ih =>
    rw [List.forall_mem_cons] at hf
    have hcons : o.firstCall n (((m :: ms).map f).map giveTrue) =
        if m = n then some ((f m).1, "true".toList, (f m).2)
          else o.firstCall n ((ms.map f).map giveTrue) := by
      simp only [firstCall, optionGroups, List.map_cons,
        List.filterMap_cons_some (option?_giveTrue _), List.find?_cons, hf.1, Option.some.injEq]
      by_cases hm : m = n <;> simp [hm]
    rw [hcons, ih hf.2]
    by_cases hm : m = n
    · subst hm
      simp
    · simp [hm, Ne.symm hm]

/-- When every missing option can be written, there is a command line that gives values to those
options and to no others. -/
lemma exists_parse_eq_true (hvalid : o.validators = ∅) (hf : o.Spells f) :
    ∃ argv, (o.parse argv).1 = .ok true ∧
      (∀ n, o.Missing n → o.firstCall n (groups (argv.drop 1)) =
        some ((f n).1, "true".toList, (f n).2)) ∧
      ∀ n, ¬ o.Missing n → o.firstCall n (groups (argv.drop 1)) = none := by
  classical
  let ms := (o.longNames.keys.filter o.Missing).toList
  have hms : ∀ m, m ∈ ms ↔ o.Missing m := by
    intro m
    rw [Finset.mem_toList, Finset.mem_filter, and_iff_right_iff_imp, Finmap.mem_keys]
    rintro ⟨⟨desc, hdesc, -⟩, -⟩
    exact Finmap.mem_of_lookup_eq_some hdesc
  have hname : ∀ m ∈ ms, o.longNameOf (f m).2 (f m).1 = some m :=
    fun m hm => (hf m ((hms m).mp hm)).2
  have hspell : ∀ call ∈ ms.map f, Spellable call.2 call.1 := by
    rw [List.forall_mem_map]
    exact fun m hm => (hf m ((hms m).mp hm)).1
  let args := ((ms.map f).map giveTrue).flatMap Group.tokens
  have hgroups : groups (([] :: args).drop 1) = (ms.map f).map giveTrue :=
    (splits_giveTrue hspell).eq_groups
  have hrun := runGroups_giveTrue hvalid hname
  have hcalls := firstCall_giveTrue hname
  refine ⟨[] :: args, ?_, fun n hn => ?_, fun n hn => ?_⟩
  · rw [fst_parse_eq_true_iff_required, snd_parse, hgroups]
    refine ⟨hrun, fun n desc hdesc hrequired => ?_⟩
    rw [hasValue_eq_true_iff, lookup_values_runGroups hrun, firstText_eq_firstCall, hcalls]
    cases hvalue : o.values.lookup n with
    | some x => exact ⟨x, rfl⟩
    | none =>
      rw [if_pos ((hms n).mpr ⟨⟨desc, hdesc, hrequired⟩, hvalue⟩)]
      exact ⟨_, rfl⟩
  · rw [hgroups, hcalls, if_pos ((hms n).mpr hn)]
  · rw [hgroups, hcalls, if_neg (mt (hms n).mp hn)]

/-! ### Required options have a value of their own -/

/-- An option that has a value of its own on every command line that `parse` takes is assured. -/
lemma assured_of_forall (hvalid : o.validators = ∅)
    (hnone : initialSource env ps p.2.longName = none → o.values.lookup p.2.longName = none)
    (hwritable : ∀ m, o.Missing m → o.Writable m)
    (h : ∀ argv, (o.parse argv).1 = .ok true → HasOwnValue env ps o argv p) :
    Assured env ps o p := by
  obtain ⟨f, hf⟩ := exists_spells hwritable
  obtain ⟨argv, htrue, -, hothers⟩ := exists_parse_eq_true hvalid hf
  obtain ⟨hvalue, hsource | ⟨hsource, -⟩⟩ := h argv htrue
  · exact .inl hsource
  · have hmissing : o.Missing p.2.longName := by
      by_contra hnot
      obtain ⟨x, hx⟩ := hasValue_eq_true_iff.mp hvalue
      rw [lookup_values_parse htrue, hnone hsource, hothers _ hnot] at hx
      cases hx
    refine .inr ⟨hsource, hmissing, fun s hs hshort => ?_⟩
    -- a command line on which the option is written with the short name `s`
    obtain ⟨argv', htrue', hcalls, -⟩ := exists_parse_eq_true hvalid (hf.update hs hshort)
    obtain ⟨-, hsource' | ⟨-, name, value, isShort, hcall, hown⟩⟩ := h argv' htrue'
    · rw [hsource] at hsource'
      cases hsource'
    · rw [hcalls _ hmissing, Function.update_self] at hcall
      cases hcall
      exact hown

section addOptions

variable {allowUnrecognized : Bool} {world : W}

/-- In a store with some options, `parse` gives `true` only where every required option has a value
of its own, just when either no command line can satisfy the check or every required option is
assured of such a value. -/
theorem hasOwnValue_iff (hnamed : ∀ p ∈ ps, ¬ (p.2.shortName = [] ∧ p.2.longName = [])) :
    (∀ argv, ((addOptions env allowUnrecognized world ps).parse argv).1 = .ok true →
      ∀ p ∈ ps, p.2.required = true →
        HasOwnValue env ps (addOptions env allowUnrecognized world ps) argv p) ↔
      (∃ n, (addOptions env allowUnrecognized world ps).Missing n ∧
        ¬ (addOptions env allowUnrecognized world ps).Writable n) ∨
      ∀ p ∈ ps, p.2.required = true →
        Assured env ps (addOptions env allowUnrecognized world ps) p := by
  constructor
  · intro h
    rw [or_iff_not_imp_left]
    intro hwritable p hp hrequired
    simp only [not_exists, not_and, not_not] at hwritable
    refine assured_of_forall (validators_addOptions ps) (fun hnone => ?_) hwritable
      fun argv htrue => h argv htrue p hp hrequired
    rw [lookup_values_addOptions hnamed, hnone, Option.bind_none]
  · rintro (⟨n, hmissing, hnot⟩ | hassured) argv htrue p hp hrequired
    · obtain ⟨⟨name, value, isShort⟩, hcall⟩ := hmissing.exists_firstCall htrue
      exact absurd ⟨name, isShort, writable_of_firstCall hcall⟩ hnot
    · exact hasOwnValue_of_assured hnamed (hassured p hp hrequired) htrue

theorem hasOwnValue_level :
    let ps : List (OptionType × OptionDescriptor) :=
      [(.scalar .int, { shortName := ['l'], longName := "level".toList, required := true })]
    ∀ argv, ((addOptions (fun _ => none) false () ps).parse argv).1 = .ok true →
      ∀ p ∈ ps, p.2.required = true →
        HasOwnValue (fun _ => none) ps (addOptions (fun _ => none) false () ps) argv p := by
  intro ps
  apply (hasOwnValue_iff (by simp [ps])).mpr
  refine .inr fun p hp _ => .inr ⟨?_, ?_, ?_⟩
  · obtain rfl := List.mem_singleton.mp hp
    decide
  · obtain rfl := List.mem_singleton.mp hp
    exact ⟨⟨_, rfl, rfl⟩, rfl⟩
  · obtain rfl := List.mem_singleton.mp hp
    intro name _ hname
    by_contra hne
    have hother : (addOptions (fun _ => none) false () ps).longNameOf true name = none := by
      rw [addOptions, List.map_singleton, registerAll, List.foldl_cons, List.foldl_nil, register,
        longNameOf_addOption, if_neg fun h => hne h.2]
      rfl
    rw [hother] at hname
    cases hname

/-- A required option without a long name is not asked for. -/
theorem not_hasOwnValue :
    let ps : List (OptionType × OptionDescriptor) :=
      [(.scalar .int, { shortName := ['a'], longName := [], required := true })]
    let o := addOptions (fun _ => none) false () ps
    (o.parse ["program".toList]).1 = .ok true ∧
      (o.parse ["program".toList]).2.hasValue [] = false ∧
      ¬ ∀ argv, (o.parse argv).1 = .ok true → ∀ p ∈ ps, p.2.required = true →
        HasOwnValue (fun _ => none) ps o argv p := by
  intro ps o
  have htrue : (o.parse ["program".toList]).1 = .ok true := rfl
  have hvalue : (o.parse ["program".toList]).2.hasValue [] = false := rfl
  refine ⟨htrue, hvalue, fun h => ?_⟩
  have hown := (h _ htrue _ List.mem_cons_self rfl).1
  rw [hvalue] at hown
  cases hown

end addOptions

end Options

end Cli
