import LibUdp.Cli.Calls

/-!
# Options that do not interfere

Options are looked up in two tables, by short and by long name, but their values are in one table,
under the long name. Options that share no name are separate there when at most one of them is
without a long name.
-/

namespace Cli

open Text

namespace OptionDescriptor

/-- The name of the option in one of the two tables, empty where it has none. -/
def nameOf (desc : OptionDescriptor) (isShort : Bool) : Text :=
  if isShort then desc.shortName else desc.longName

def SharesName (desc desc' : OptionDescriptor) : Prop :=
  ∃ isShort, desc.nameOf isShort ≠ [] ∧ desc.nameOf isShort = desc'.nameOf isShort

/-- The text of the first group that is written with a name of the option. -/
def firstText (desc : OptionDescriptor) (gs : List Group) : Option Text :=
  (optionGroups gs).findSome? fun (name, value, isShort) =>
    if name ≠ [] ∧ name = desc.nameOf isShort then some value else none

end OptionDescriptor

namespace Options

variable {W : Type}

/-- The options that are registered by the calls. -/
def registered (rs : List (Registration W)) : List (OptionType × OptionDescriptor) :=
  rs.filterMap fun
    | .addOption T desc  => some (T, desc)
    | .addValidation _ _ => none

/-- The option whose environment or default value registration leaves under the long name: the last
one that brings a value for it. -/
def initialSource (env : Text → Option Text) (ps : List (OptionType × OptionDescriptor))
    (n : Text) : Option (OptionType × OptionDescriptor) :=
  ps.reverse.find? fun p => p.2.longName = n ∧ (initialValue env p.1 p.2).isSome

/-- The groups that the loop of `parse` handles before it stops. -/
def handledGroups (o : Options W) : List Group → List Group
  | []      => []
  | g :: gs =>
    if (o.handleGroup g).1 = .ok true then g :: (o.handleGroup g).2.handledGroups gs else []

/-- Each registered option has an entry of its own, and at every point of the loop of `parse` that
entry is the value `add_option` made for the option, or else the value of the first text that was
given for it by one of its names. -/
structure Separate (env : Text → Option Text) (o : Options W) (rs : List (Registration W))
    (argv : List Text) : Prop where
  own : ((registered rs).map fun p => p.2.longName).Nodup
  entry : ∀ p ∈ registered rs, ∀ pre, pre <+: groups (argv.drop 1) →
    ((registerAll env o rs).runGroups pre).2.values.lookup p.2.longName =
      (initialValue env p.1 p.2).or
        ((p.2.firstText ((registerAll env o rs).handledGroups pre)).bind detected)

variable {o : Options W} {env : Text → Option Text} {rs : List (Registration W)} {n : Text}

/-! ### The groups that are handled -/

/-- A group that is not handled leaves all entries alone. -/
lemma values_handleGroup_of_ne {g : Group} (h : (o.handleGroup g).1 ≠ .ok true) :
    (o.handleGroup g).2.values = o.values := by
  cases groupHandled o g with
  | known hm hvalue hp =>
    generalize o.handleGroup g = p at h hp
    cases hp with
    | refused world _ _ => rfl
    | held world _ _ => exact absurd rfl h
    | stored world _ _ _ => exact absurd rfl h
    | failed world _ _ _ => rfl
  | other args hnone heq _ _ => rw [heq]

lemma fst_runGroups_handledGroups (o : Options W) (gs : List Group) :
    (o.runGroups (o.handledGroups gs)).1 = .ok true := by
  induction gs generalizing o with
  | nil => rfl
  | cons g gs ih =>
    rw [handledGroups]
    split_ifs with h
    · exact fst_runGroups_cons.mpr ⟨h, ih _⟩
    · rfl

lemma values_runGroups_handledGroups (o : Options W) (gs : List Group) :
    (o.runGroups (o.handledGroups gs)).2.values = (o.runGroups gs).2.values := by
  induction gs generalizing o with
  | nil => rfl
  | cons g gs ih =>
    rw [handledGroups]
    split_ifs with h
    · rw [snd_runGroups_cons h, snd_runGroups_cons h, ih]
    · rw [runGroups_cons, andThen_of_ne_true h, values_handleGroup_of_ne h]
      rfl

/-! ### Registration -/

lemma registerAll_concat (r : Registration W) :
    registerAll env o (rs ++ [r]) = register env (registerAll env o rs) r := by
  rw [registerAll, List.foldl_concat]
  rfl

lemma registered_concat_addOption (T : OptionType) (desc : OptionDescriptor) :
    registered (rs ++ [.addOption T desc]) = registered rs ++ [(T, desc)] := by
  simp [registered]

lemma registered_concat_addValidation (name : Text) (callback : ValidationCallback W) :
    registered (rs ++ [.addValidation name callback]) = registered rs := by
  simp [registered]

lemma lookup_values_addOption {T : OptionType} {desc : OptionDescriptor}
    (h : ¬ (desc.shortName = [] ∧ desc.longName = [])) (n : Text) :
    (o.addOption env T desc).2.values.lookup n =
      if n = desc.longName then (initialValue env T desc).or (o.values.lookup n)
      else o.values.lookup n := by
  obtain ⟨world, hworld⟩ := o.snd_addOption env T desc h
  rw [hworld, lookup_setValue]

lemma initialSource_concat (ps : List (OptionType × OptionDescriptor))
    (p : OptionType × OptionDescriptor) (n : Text) : initialSource env (ps ++ [p]) n =
      if p.2.longName = n ∧ (initialValue env p.1 p.2).isSome then some p
        else initialSource env ps n := by
  rw [initialSource, List.reverse_append, List.reverse_singleton, List.singleton_append,
    List.find?_cons]
  by_cases h : p.2.longName = n ∧ (initialValue env p.1 p.2).isSome
  · rw [if_pos h, decide_eq_true h]
  · rw [if_neg h, decide_eq_false h]
    rfl

lemma addValidation_values (name : Text) (callback : ValidationCallback W) :
    (o.addValidation name callback).2.values = o.values := by
  rw [addValidation]
  split_ifs <;> rfl

lemma longNameOf_addValidation (name : Text) (callback : ValidationCallback W) (isShort : Bool)
    (m : Text) :
    (o.addValidation name callback).2.longNameOf isShort m = o.longNameOf isShort m := by
  rw [addValidation]
  split_ifs <;> rfl

section fresh

variable {allowUnrecognized : Bool} {world : W}

/-- A name on the command line stands for the option that was registered with it. -/
lemma longNameOf_registerAll
    (hdistinct : (registered rs).Pairwise fun p q => ¬ p.2.SharesName q.2) (isShort : Bool)
    (name : Text) :
    (registerAll env { allowUnrecognized, world } rs).longNameOf isShort name = some n ↔
      name ≠ [] ∧ ∃ p ∈ registered rs, name = p.2.nameOf isShort ∧ p.2.longName = n := by
  induction rs using List.reverseRecOn with
  | nil => simp [registerAll, registered, longNameOf, names]
  | append_singleton rs r ih =>
    rw [registerAll_concat]
    cases r with
    | addValidation m callback =>
      rw [registered_concat_addValidation] at hdistinct ⊢
      rw [register, longNameOf_addValidation]
      exact ih hdistinct
    | addOption T desc =>
      rw [registered_concat_addOption, List.pairwise_append] at hdistinct
      obtain ⟨hold, -, hnew⟩ := hdistinct
      rw [register, longNameOf_addOption, registered_concat_addOption, ← OptionDescriptor.nameOf]
      simp only [List.mem_append, List.mem_singleton, or_and_right, exists_or, exists_eq_left]
      split_ifs with h
      · obtain ⟨hne, hname⟩ := h
        have hothers : ¬ ∃ p ∈ registered rs, name = p.2.nameOf isShort ∧ p.2.longName = n := by
          rintro ⟨p, hp, hp', -⟩
          exact hnew p hp (T, desc) (List.mem_singleton.mpr rfl)
            ⟨isShort, hp' ▸ hne, hp'.symm.trans hname⟩
        rw [Option.some.injEq]
        exact ⟨fun hn => ⟨hne, .inr ⟨hname, hn⟩⟩, fun hex => (hex.2.resolve_left hothers).2⟩
      · rw [ih hold]
        refine and_congr_right fun hne => ?_
        exact (or_iff_left fun hex => h ⟨hne, hex.1⟩).symm

/-- The entries after registration are those of their sources. -/
lemma lookup_values_registerAll
    (hnamed : ∀ p ∈ registered rs, ¬ (p.2.shortName = [] ∧ p.2.longName = [])) (n : Text) :
    (registerAll env { allowUnrecognized, world } rs).values.lookup n =
      (initialSource env (registered rs) n).bind fun p => initialValue env p.1 p.2 := by
  induction rs using List.reverseRecOn with
  | nil => rfl
  | append_singleton rs r ih =>
    rw [registerAll_concat]
    cases r with
    | addValidation m callback =>
      rw [registered_concat_addValidation] at hnamed ⊢
      rw [register, addValidation_values]
      exact ih hnamed
    | addOption T desc =>
      rw [registered_concat_addOption, List.forall_mem_append, List.forall_mem_singleton] at hnamed
      rw [registered_concat_addOption, initialSource_concat, register,
        lookup_values_addOption hnamed.2, ih hnamed.1]
      by_cases hn : n = desc.longName
      · subst hn
        cases hx : initialValue env T desc with
        | none => simp
        | some x => simp [hx]
      · rw [if_neg hn, if_neg fun h => hn h.1.symm]

/-- Where the entries are the options' own, each holds the value that was made for its option. -/
lemma lookup_values_of_nodup
    (hnamed : ∀ p ∈ registered rs, ¬ (p.2.shortName = [] ∧ p.2.longName = []))
    (hown : ((registered rs).map fun p => p.2.longName).Nodup)
    {p : OptionType × OptionDescriptor} (hp : p ∈ registered rs) :
    (registerAll env { allowUnrecognized, world } rs).values.lookup p.2.longName =
      initialValue env p.1 p.2 := by
  rw [lookup_values_registerAll hnamed]
  cases hsource : initialSource env (registered rs) p.2.longName with
  | none =>
    have hnone := List.find?_eq_none.mp hsource p (List.mem_reverse.mpr hp)
    simp only [decide_eq_true_eq, true_and, Option.not_isSome_iff_eq_none] at hnone
    rw [hnone, Option.bind_none]
  | some q =>
    have hq := List.mem_reverse.mp (List.mem_of_find?_eq_some hsource)
    have hname := List.find?_some hsource
    simp only [decide_eq_true_eq] at hname
    obtain rfl := List.inj_on_of_nodup_map hown hq hp hname.1
    rfl

/-- The first text for an option is the first one given by one of its names. -/
lemma firstText_registerAll
    (hdistinct : (registered rs).Pairwise fun p q => ¬ p.2.SharesName q.2)
    (hown : ((registered rs).map fun p => p.2.longName).Nodup)
    {p : OptionType × OptionDescriptor} (hp : p ∈ registered rs) (gs : List Group) :
    (registerAll env { allowUnrecognized, world } rs).firstText p.2.longName gs =
      p.2.firstText gs := by
  have hname : ∀ isShort name,
      (registerAll env { allowUnrecognized, world } rs).longNameOf isShort name =
        some p.2.longName ↔ name ≠ [] ∧ name = p.2.nameOf isShort := by
    intro isShort name
    rw [longNameOf_registerAll hdistinct]
    refine and_congr_right fun _ => ⟨?_, fun h => ⟨p, hp, h, rfl⟩⟩
    rintro ⟨q, hq, hname, heq⟩
    obtain rfl := List.inj_on_of_nodup_map hown hq hp heq
    exact hname
  rw [firstText, OptionDescriptor.firstText]
  simp only [hname]

/-- Options that share no name are separate just when no two of them lack a long name. -/
theorem separate_iff {argv : List Text}
    (hnamed : ∀ p ∈ registered rs, ¬ (p.2.shortName = [] ∧ p.2.longName = []))
    (hdistinct : (registered rs).Pairwise fun p q => ¬ p.2.SharesName q.2) :
    Separate env { allowUnrecognized, world } rs argv ↔
      (registered rs).Pairwise fun p q => ¬ (p.2.longName = [] ∧ q.2.longName = []) := by
  constructor
  · intro h
    refine (List.pairwise_map.mp h.own).imp ?_
    rintro p q hne ⟨hp, hq⟩
    exact hne (hp.trans hq.symm)
  · intro h
    have hown : ((registered rs).map fun p => p.2.longName).Nodup := by
      refine List.pairwise_map.mpr ((h.and hdistinct).imp ?_)
      rintro p q ⟨hempty, hshares⟩ heq
      by_cases hp : p.2.longName = []
      · exact hempty ⟨hp, heq ▸ hp⟩
      · exact hshares ⟨false, hp, heq⟩
    refine ⟨hown, ?_⟩
    intro p hp pre _
    rw [← values_runGroups_handledGroups,
      lookup_values_runGroups (fst_runGroups_handledGroups _ pre),
      lookup_values_of_nodup hnamed hown hp, firstText_registerAll hdistinct hown hp]

theorem separate_iff_level :
    Separate (fun _ => none) { world := () }
        [.addOption (.scalar .int) { shortName := ['a'], longName := [] },
          .addOption (.scalar .int) { shortName := ['b'], longName := "level".toList }]
        ["program".toList, "-b".toList, "7".toList] ↔
      (registered (W := Unit) [.addOption (.scalar .int) { shortName := ['a'], longName := [] },
          .addOption (.scalar .int) { shortName := ['b'], longName := "level".toList }]).Pairwise
        fun p q => ¬ (p.2.longName = [] ∧ q.2.longName = []) := by
  apply separate_iff
  · simp [registered]
  · simp [registered, OptionDescriptor.SharesName, OptionDescriptor.nameOf]

/-- Two options that have only a short name, the first with a default. The value that is given for
the second one is not stored, and the default of the first one is there in its place. -/
theorem not_separate :
    let a : OptionDescriptor :=
      { shortName := ['a'], longName := [], defaultValue := some "5".toList }
    let b : OptionDescriptor := { shortName := ['b'], longName := [] }
    let rs : List (Registration Unit) :=
      [.addOption (.scalar .int) a, .addOption (.scalar .int) b]
    let argv := ["program".toList, "-b".toList, "7".toList]
    let o := registerAll (fun _ => none) { world := () } rs
    ¬ a.SharesName b ∧ ¬ Separate (fun _ => none) { world := () } rs argv ∧
      (o.parse argv).1 = .ok true ∧
      (o.parse argv).2.values.lookup b.longName = some (.scalar .int 5) ∧
      b.firstText (o.handledGroups (groups (argv.drop 1))) = some "7".toList := by
  intro a b rs argv o
  refine ⟨?_, ?_, rfl, rfl, rfl⟩
  · simp [a, b, OptionDescriptor.SharesName, OptionDescriptor.nameOf]
  · intro h
    simpa [rs, a, b, registered] using h.own

end fresh

end Options

end Cli
