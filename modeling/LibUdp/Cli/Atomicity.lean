import LibUdp.Cli.Separation
import LibUdp.Cli.Conversion

/-!
# What a failed registration leaves behind

`add_option` stores the descriptor before it converts the environment or default text, and
`handle_value` stores the value before it asks the validator. An exception rolls nothing back.
-/

namespace Cli

open Text

namespace Options

variable {W : Type} {o : Options W} {env : Text → Option Text} {T : OptionType}
  {desc : OptionDescriptor}

/-- The descriptor, value and validator tables of two stores are the same. -/
structure SameTables (o o' : Options W) : Prop where
  names : ∀ isShort, o'.names isShort = o.names isShort
  values : o'.values = o.values
  validators : o'.validators = o.validators

/-- When `add_option` throws, all tables are as before. -/
def AllOrNothing (o : Options W) (env : Text → Option Text) (T : OptionType)
    (desc : OptionDescriptor) : Prop :=
  (o.addOption env T desc).1 ≠ .ok () → SameTables o (o.addOption env T desc).2

/-- The option is in the tables already, under each name it has. -/
def Registered (o : Options W) (desc : OptionDescriptor) : Prop :=
  ∀ isShort, desc.nameOf isShort ≠ [] → (o.names isShort).lookup (desc.nameOf isShort) = some desc

/-! ### When it throws -/

lemma accepts_addDescriptor {name text : Text} :
    (o.addDescriptor desc).Accepts name text ↔ o.Accepts name text := by
  rw [Accepts, Accepts, validateOption, validateOption, addDescriptor_validators,
    addDescriptor_world]
  cases o.validators.lookup name <;> exact Iff.rfl

lemma fst_addOption_eq_ok_iff (h : ¬ (desc.shortName = [] ∧ desc.longName = [])) :
    (o.addOption env T desc).1 = .ok () ↔ ∀ text, initialText env desc = some text →
      Convertible T text ∧ o.Accepts desc.longName text := by
  rw [addOption, if_neg h]
  cases initialText env desc with
  | none => simp
  | some text => simp [fst_handleValue_eq_ok_iff, exists_convert_iff, accepts_addDescriptor]

/-! ### What it leaves -/

lemma insert_eq_self_iff {α : Type} {m : Finmap fun _ : Text => α} {name : Text} {x : α} :
    m.insert name x = m ↔ m.lookup name = some x := by
  constructor
  · intro h
    rw [← h, Finmap.lookup_insert]
  · intro h
    apply Finmap.ext_lookup
    intro n
    by_cases hn : n = name
    · rw [hn, Finmap.lookup_insert, h]
    · rw [Finmap.lookup_insert_of_ne _ hn]

lemma names_addDescriptor (isShort : Bool) : (o.addDescriptor desc).names isShort =
    if desc.nameOf isShort ≠ [] then (o.names isShort).insert (desc.nameOf isShort) desc
      else o.names isShort := by
  cases isShort with
  | false =>
    simp only [names, OptionDescriptor.nameOf, addDescriptor]
    split_ifs <;> rfl
  | true =>
    simp only [names, OptionDescriptor.nameOf, addDescriptor]
    split_ifs <;> rfl

lemma names_addOption_eq_iff (h : ¬ (desc.shortName = [] ∧ desc.longName = [])) :
    (∀ isShort, (o.addOption env T desc).2.names isShort = o.names isShort) ↔
      o.Registered desc := by
  obtain ⟨world, hworld⟩ := o.snd_addOption env T desc h
  refine forall_congr' fun isShort => ?_
  have hnames : (o.addOption env T desc).2.names isShort =
      (o.addDescriptor desc).names isShort := by
    rw [hworld]
    rfl
  rw [hnames, names_addDescriptor]
  split_ifs with hne
  · rw [insert_eq_self_iff]
    exact ⟨fun h _ => h, fun h => h hne⟩
  · exact iff_of_true rfl fun hne' => absurd hne' hne

lemma values_addOption_eq_iff (h : ¬ (desc.shortName = [] ∧ desc.longName = [])) :
    (o.addOption env T desc).2.values = o.values ↔
      ∀ x, initialValue env T desc = some x → o.values.lookup desc.longName = some x := by
  obtain ⟨world, hworld⟩ := o.snd_addOption env T desc h
  rw [hworld]
  cases initialValue env T desc with
  | none => simp [setValue]
  | some x => simp [setValue, insert_eq_self_iff]

lemma sameTables_addOption_iff (h : ¬ (desc.shortName = [] ∧ desc.longName = [])) :
    SameTables o (o.addOption env T desc).2 ↔ o.Registered desc ∧
      ∀ x, initialValue env T desc = some x → o.values.lookup desc.longName = some x := by
  rw [← names_addOption_eq_iff h, ← values_addOption_eq_iff h]
  constructor
  · intro hsame
    exact ⟨hsame.names, hsame.values⟩
  · rintro ⟨hnames, hvalues⟩
    exact ⟨hnames, hvalues, validators_addOption o env T desc⟩

/-- Where `add_option` is all or nothing: the option has no name, or its text converts and the
validator takes it, or the option and the value are in the tables already. -/
theorem allOrNothing_iff (o : Options W) (env : Text → Option Text) (T : OptionType)
    (desc : OptionDescriptor) :
    o.AllOrNothing env T desc ↔ (desc.shortName = [] ∧ desc.longName = []) ∨
      (∀ text, initialText env desc = some text →
        Convertible T text ∧ o.Accepts desc.longName text) ∨
      (o.Registered desc ∧
        ∀ x, initialValue env T desc = some x → o.values.lookup desc.longName = some x) := by
  by_cases h : desc.shortName = [] ∧ desc.longName = []
  · have hsame : SameTables o (o.addOption env T desc).2 := by
      rw [addOption, if_pos h]
      exact ⟨fun _ => rfl, rfl, rfl⟩
    exact iff_of_true (fun _ => hsame) (.inl h)
  · rw [AllOrNothing, ne_eq, fst_addOption_eq_ok_iff h, sameTables_addOption_iff h, or_iff_right h,
      or_iff_not_imp_left]

/-- An option whose default does not convert is registered all the same, and a default that the
validator rejects can be read afterwards. -/
theorem not_allOrNothing :
    let noEnv : Text → Option Text := fun _ => none
    let port : OptionDescriptor := { shortName := ['p'], longName := "port".toList }
    let bad : OptionDescriptor := { port with defaultValue := some "abc".toList }
    let large : OptionDescriptor := { port with defaultValue := some "70000".toList }
    let o : Options Unit := { world := () }
    let checked := ((o.addOption noEnv (.scalar .int) port).2.addValidation port.longName
      fun text world => (.ok (text ≠ "70000".toList), world)).2
    (o.addOption noEnv (.scalar .int) bad).1 ≠ .ok () ∧
      (o.addOption noEnv (.scalar .int) bad).2.longNames.lookup port.longName = some bad ∧
      (checked.addOption noEnv (.scalar .int) large).1 ≠ .ok () ∧
      (checked.addOption noEnv (.scalar .int) large).2.get (.scalar .int) port.longName =
        some 70000 ∧
      ¬ o.AllOrNothing noEnv (.scalar .int) bad := by
  intro noEnv port bad large o checked
  have hthrows : (o.addOption noEnv (.scalar .int) bad).1 ≠ .ok () := by decide
  have hleft : (o.addOption noEnv (.scalar .int) bad).2.longNames.lookup port.longName =
      some bad := rfl
  refine ⟨hthrows, hleft, by decide, rfl, fun h => ?_⟩
  have hnames : (o.addOption noEnv (.scalar .int) bad).2.longNames = ∅ := (h hthrows).names false
  rw [hnames] at hleft
  cases hleft

end Options

end Cli
