import LibUdp.Cli.Calls

/-!
# Validators and the values they should guard

For each entry of the store it is recorded which text it was made of. `add_option` stores a value
before it asks the validator, and `add_validation` does not look at the values that are there.
-/

namespace Cli

open Text Run

/-- An option store with the text each of its values was made of. -/
structure Traced (W : Type) where
  store  : Options W
  origin : Text → Option Text := fun _ => none

namespace Options

variable {W : Type}

/-- The text `add_option` stores a value of. -/
def storedText (env : Text → Option Text) (T : OptionType) (desc : OptionDescriptor) :
    Option Text :=
  if desc.shortName = [] ∧ desc.longName = [] then none
  else (initialText env desc).filter fun text => (T.convert text).isOk

/-- The value is one that conversion by type or detection makes of the text. -/
def Makes (text : Text) (x : ValueVariant) : Prop :=
  (∃ (T : OptionType) (y : T.Carrier), T.convert text = .ok y ∧ x = T.wrap y) ∨
    detectValue text = .ok x

lemma storedText_eq_some_iff {env : Text → Option Text} {T : OptionType} {desc : OptionDescriptor}
    {text : Text} (h : ¬ (desc.shortName = [] ∧ desc.longName = [])) :
    storedText env T desc = some text ↔
      initialText env desc = some text ∧ ∃ y, T.convert text = .ok y := by
  rw [storedText, if_neg h, Option.filter_eq_some_iff]
  refine and_congr_right fun _ => ?_
  cases T.convert text with
  | ok y => exact iff_of_true rfl ⟨y, rfl⟩
  | error e => exact iff_of_false (by simp [Except.isOk, Except.toBool]) (by simp)

/-- The entry that `add_option` puts in is made of the text. -/
lemma exists_storedText {env : Text → Option Text} {T : OptionType} {desc : OptionDescriptor}
    {x : ValueVariant} (h : ¬ (desc.shortName = [] ∧ desc.longName = []))
    (hx : initialValue env T desc = some x) :
    ∃ text, storedText env T desc = some text ∧ Makes text x := by
  obtain ⟨text, htext, hconvert⟩ := Option.bind_eq_some_iff.mp hx
  obtain ⟨y, hy, rfl⟩ := Option.map_eq_some_iff.mp hconvert
  cases hresult : T.convert text with
  | error e =>
    rw [hresult] at hy
    cases hy
  | ok y' =>
    rw [hresult] at hy
    cases hy
    exact ⟨text, (storedText_eq_some_iff h).mpr ⟨htext, y, hresult⟩, .inl ⟨T, y, hresult, rfl⟩⟩

lemma storedText_of_initialValue {env : Text → Option Text} {T : OptionType}
    {desc : OptionDescriptor} (h : ¬ (desc.shortName = [] ∧ desc.longName = []))
    (hx : initialValue env T desc = none) : storedText env T desc = none := by
  rw [Option.eq_none_iff_forall_ne_some]
  intro text htext
  obtain ⟨htext, y, hy⟩ := (storedText_eq_some_iff h).mp htext
  simp [initialValue, htext, hy, Except.toOption] at hx

end Options

namespace Traced

variable {W : Type}

/-- What a call does, and of which text an entry is made after it. -/
def call (t : Traced W) (c : Call W) : Traced W where
  store := t.store.call c
  origin n := match c with
    | .register env (.addOption T desc) =>
      if n = desc.longName then (Options.storedText env T desc).or (t.origin n) else t.origin n
    | .register _ (.addValidation _ _) => t.origin n
    | .parse argv =>
      if t.store.hasValue n then t.origin n else t.store.firstText n (groups (argv.drop 1))
    | .clear => none

def step (t : Traced W) (c : Call W) : Option (Traced W) := some (t.call c)

/-- Every value of an option with a validator is made of a text that the validator accepts. -/
def AllValidated (t : Traced W) : Prop :=
  ∀ n callback x, t.store.validators.lookup n = some callback →
    t.store.values.lookup n = some x →
    ∃ text, t.origin n = some text ∧ Options.Makes text x ∧
      (callback text t.store.world).1 = .ok true

/-- Whenever `parse` gives `true` in a run from a fresh store, all values are validated. -/
def Validates (allowUnrecognized : Bool) (world : W) (cs : List (Call W)) : Prop :=
  ∀ t argv, Takes step { store := { allowUnrecognized, world } } cs t (.parse argv) →
    (t.store.parse argv).1 = .ok true → (t.call (.parse argv)).AllValidated

/-- A call of `add_option` stores only what the validator accepts, and a call of `add_validation`
for an option with a value brings a validator that accepts the text the value was made of. -/
def Checked (t : Traced W) : Call W → Prop
  | .register env (.addOption T desc) =>
    ∀ text, Options.storedText env T desc = some text → t.store.Accepts desc.longName text
  | .register _ (.addValidation name callback) =>
    (t.store.longNames.lookup name).isSome → t.store.hasValue name →
      ∀ text, t.origin name = some text → (callback text t.store.world).1 = .ok true
  | .parse _ | .clear => True

/-- The validators are pure, and every entry is made of a text that is accepted. -/
structure Vouched (t : Traced W) : Prop where
  pure  : t.store.HasPure
  entry : ∀ n x, t.store.values.lookup n = some x →
    ∃ text, t.origin n = some text ∧ Options.Makes text x ∧ t.store.Accepts n text

variable {t : Traced W} {n : Text}

lemma accepts_iff {callback : ValidationCallback W} {text : Text}
    (h : t.store.validators.lookup n = some callback) :
    t.store.Accepts n text ↔ (callback text t.store.world).1 = .ok true := by
  rw [Options.Accepts, Options.validateOption, h]

namespace Vouched

lemma init (allowUnrecognized : Bool) (world : W) :
    Vouched { store := { allowUnrecognized, world } } where
  pure _ _ h := by cases h
  entry _ _ h := by cases h

lemma allValidated (h : Vouched t) : t.AllValidated := by
  intro n callback x hcallback hx
  obtain ⟨text, horigin, hmakes, haccepts⟩ := h.entry n x hx
  exact ⟨text, horigin, hmakes, (accepts_iff hcallback).mp haccepts⟩

lemma addOption (h : Vouched t) {env : Text → Option Text} {T : OptionType}
    {desc : OptionDescriptor} (hc : t.Checked (.register env (.addOption T desc))) :
    Vouched (t.call (.register env (.addOption T desc))) := by
  have hvalidators := t.store.validators_addOption env T desc
  refine ⟨h.pure.congr hvalidators, ?_⟩
  intro n x hx
  simp only [call, Options.call, Options.register] at hx ⊢
  simp only [h.pure.accepts_congr hvalidators]
  by_cases hnames : desc.shortName = [] ∧ desc.longName = []
  · have hnone : Options.storedText env T desc = none := if_pos hnames
    rw [Options.addOption, if_pos hnames] at hx
    simpa [hnone] using h.entry n x hx
  · obtain ⟨world, hworld⟩ := t.store.snd_addOption env T desc hnames
    rw [hworld, Options.lookup_setValue] at hx
    by_cases hn : n = desc.longName
    · rw [if_pos hn] at hx ⊢
      cases hinitial : Options.initialValue env T desc with
      | none =>
        rw [hinitial, Option.none_or] at hx
        rw [Options.storedText_of_initialValue hnames hinitial, Option.none_or]
        exact h.entry n x hx
      | some y =>
        obtain ⟨text, htext, hmakes⟩ := Options.exists_storedText hnames hinitial
        rw [hinitial, Option.some_or, Option.some.injEq] at hx
        subst hx hn
        exact ⟨text, by rw [htext, Option.some_or], hmakes, hc text htext⟩
    · rw [if_neg hn] at hx ⊢
      exact h.entry n x hx

lemma addValidation (h : Vouched t) {env : Text → Option Text} {name : Text}
    {callback : ValidationCallback W} (hpure : Options.IsPure callback)
    (hc : t.Checked (.register env (.addValidation name callback))) :
    Vouched (t.call (.register env (.addValidation name callback))) := by
  simp only [call, Options.call, Options.register, Options.addValidation]
  split_ifs with hsome
  · constructor
    · intro m callback' hcallback'
      by_cases hm : m = name
      · subst hm
        rw [Finmap.lookup_insert, Option.some.injEq] at hcallback'
        exact hcallback' ▸ hpure
      · rw [Finmap.lookup_insert_of_ne _ hm] at hcallback'
        exact h.pure m callback' hcallback'
    · intro m x hx
      obtain ⟨text, horigin, hmakes, haccepts⟩ := h.entry m x hx
      refine ⟨text, horigin, hmakes, ?_⟩
      rw [Options.Accepts, Options.validateOption] at haccepts ⊢
      by_cases hm : m = name
      · subst hm
        rw [Finmap.lookup_insert]
        exact hc hsome (Options.hasValue_eq_true_iff.mpr ⟨x, hx⟩) text horigin
      · rw [Finmap.lookup_insert_of_ne _ hm]
        cases hlookup : t.store.validators.lookup m with
        | none => rfl
        | some callback' =>
          rw [hlookup] at haccepts
          exact haccepts
  · exact h

lemma parse (h : Vouched t) (argv : List Text) : Vouched (t.call (.parse argv)) := by
  have hvalidators := Options.validators_runGroups t.store (groups (argv.drop 1))
  simp only [call, Options.call, Options.snd_parse]
  refine ⟨h.pure.congr hvalidators, ?_⟩
  intro n x hx
  simp only [h.pure.accepts_congr hvalidators]
  rcases h.pure.eq_or_new_runGroups hx with hx | ⟨hnone, text, hfirst, haccepts, hdetect⟩
  · rw [if_pos (Options.hasValue_eq_true_iff.mpr ⟨x, hx⟩)]
    exact h.entry n x hx
  · rw [hnone, if_neg Bool.false_ne_true]
    exact ⟨text, hfirst, .inr hdetect, haccepts⟩

lemma clear : Vouched (t.call .clear) where
  pure _ _ h := by cases h
  entry _ _ h := by cases h

end Vouched

/-- In a run with pure validators whose calls are all checked, every value is validated whenever
`parse` gives `true`. -/
theorem validates_of_checked {allowUnrecognized : Bool} {world : W} {cs : List (Call W)}
    (hpure : ∀ env name callback,
      .register env (.addValidation name callback) ∈ cs → Options.IsPure callback)
    (hchecked : ∀ t c, Takes step { store := { allowUnrecognized, world } } cs t c → t.Checked c) :
    Validates allowUnrecognized world cs := by
  intro t argv htakes _
  have hvouched : Vouched t := by
    apply htakes.visits_source.induction (Vouched.init allowUnrecognized world)
    rintro t c _ htakes h ⟨⟩
    have hc := hchecked t c htakes
    cases c with
    | register env r =>
      cases r with
      | addOption T desc => exact h.addOption hc
      | addValidation name callback =>
        refine h.addValidation (hpure env name callback ?_) hc
        obtain ⟨pre, hpre, -⟩ := htakes
        exact hpre.mem (List.mem_append_right _ (List.mem_singleton.mpr rfl))
    | parse argv => exact h.parse argv
    | clear => exact Vouched.clear
  exact (hvouched.parse argv).allValidated

theorem validates_of_checked_level :
    Validates false () [.register (fun _ => none) (.addOption (.scalar .string)
        { shortName := [], longName := "level".toList, defaultValue := some "3".toList }),
      .register (fun _ => none)
        (.addValidation "level".toList fun text world => (.ok (text ≠ []), world)),
      .parse ["program".toList, "--level=4".toList]] := by
  apply validates_of_checked
  · intro env name callback h
    simp only [List.mem_cons, Call.register.injEq, Registration.addValidation.injEq, reduceCtorEq,
      List.not_mem_nil, and_false, false_or, or_false] at h
    obtain ⟨-, -, rfl⟩ := h
    refine ⟨fun text => .ok (text ≠ []), ?_, fun _ _ => rfl⟩
    intro value e h
    cases h
  · intro t c htakes
    simp only [takes_cons_iff, not_takes_nil, step, Option.some.injEq, exists_eq_left'] at htakes
    rcases htakes with ⟨rfl, rfl, -⟩ | ⟨rfl, rfl, -⟩ | ⟨rfl, rfl, -⟩ | h
    · intro text _
      rfl
    · rintro - - text htext
      cases htext
      rfl
    · trivial
    · simp at h

/-- A validator that takes no text. In the first run `add_option` throws, but the default is
stored; in the second the validator comes after the default. -/
theorem not_validates :
    let desc : OptionDescriptor := { shortName := [], longName := "level".toList }
    let rejectAll : ValidationCallback Unit := fun _ world => (.ok false, world)
    ¬ Validates false () [.register (fun _ => none) (.addOption (.scalar .string) desc),
        .register (fun _ => none) (.addValidation "level".toList rejectAll),
        .register (fun _ => none)
          (.addOption (.scalar .string) { desc with defaultValue := some "3".toList }),
        .parse ["program".toList]] ∧
      ¬ Validates false () [.register (fun _ => none)
          (.addOption (.scalar .string) { desc with defaultValue := some "3".toList }),
        .register (fun _ => none) (.addValidation "level".toList rejectAll),
        .parse ["program".toList]] := by
  intro desc rejectAll
  constructor
  · intro h
    obtain ⟨text, -, -, haccepts⟩ := h _ ["program".toList]
      ⟨[_, _, _], List.prefix_rfl, rfl, rfl⟩ rfl "level".toList rejectAll
      (.scalar .string "3".toList) rfl rfl
    cases haccepts
  · intro h
    obtain ⟨text, -, -, haccepts⟩ := h _ ["program".toList]
      ⟨[_, _], List.prefix_rfl, rfl, rfl⟩ rfl "level".toList rejectAll
      (.scalar .string "3".toList) rfl rfl
    cases haccepts

end Traced

end Cli
