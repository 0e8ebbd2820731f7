import LibUdp.Cli.Override

/-!
# What parsing leaves in the store

`handle_option` can end in four ways. From them follows what the loop of `parse` makes of the entry
of an option: it keeps the entry that is there, or else takes the first text for the option.
-/

namespace Cli

open Text

namespace Options

variable {W : Type} {o o' : Options W} {m n value : Text} {gs : List Group} {g : Group}

/-- The validator of the option takes the text, if there is one. -/
def Accepts (o : Options W) (m value : Text) : Prop := (o.validateOption m value).1 = .ok true

/-- What `handle_option` can do once it knows the option. -/
inductive Handled (o : Options W) (m value : Text) : Except Exn Bool × Options W → Prop
  | refused {result : Except Exn Bool} (world : W) (h : (o.validateOption m value).1 = result)
      (hne : result ≠ .ok true) : Handled o m value (result, { o with world })
  | held (world : W) (h : o.Accepts m value) (hheld : o.hasValue m = true) :
      Handled o m value (.ok true, { o with world })
  | stored (world : W) {x : ValueVariant} (h : o.Accepts m value) (hheld : o.hasValue m = false)
      (hx : detectValue value = .ok x) :
      Handled o m value (.ok true, { o with world, values := o.values.insert m x })
  | failed (world : W) {e : ConversionError} (h : o.Accepts m value) (hheld : o.hasValue m = false)
      (he : detectValue value = .error e) : Handled o m value (.ok false, { o with world })

lemma snd_validateOption (o : Options W) (m value : Text) :
    ∃ world, (o.validateOption m value).2 = { o with world } := by
  rw [validateOption]
  cases o.validators.lookup m with
  | none => exact ⟨o.world, rfl⟩
  | some callback => exact ⟨_, rfl⟩

lemma handled (o : Options W) (m value : Text) :
    Handled o m value (andThen (o.validateOption m value) (·.storeValue m value)) := by
  obtain ⟨world, hworld⟩ := snd_validateOption o m value
  by_cases h : (o.validateOption m value).1 = .ok true
  · rw [andThen_of_eq_true h, hworld, storeValue]
    have hsame : hasValue { o with world } m = o.hasValue m := rfl
    rw [hsame]
    cases hheld : o.hasValue m with
    | true => exact .held world h hheld
    | false =>
      cases hdetect : detectValue value with
      | ok x => exact .stored world h hheld hdetect
      | error e => exact .failed world h hheld hdetect
  · have hstop : o.validateOption m value = ((o.validateOption m value).1, { o with world }) :=
      Prod.ext rfl hworld
    rw [andThen_of_ne_true h, hstop]
    exact .refused world rfl h

lemma hasValue_eq_true_iff : o.hasValue m = true ↔ ∃ x, o.values.lookup m = some x :=
  Option.isSome_iff_exists

lemma hasValue_eq_false_iff : o.hasValue m = false ↔ o.values.lookup m = none := by
  rw [hasValue, Option.isSome_eq_false_iff, Option.isNone_iff_eq_none]

/-! ### The entry of an option -/

/-- The value detection makes of a text, if it makes one. -/
def detected (value : Text) : Option ValueVariant := (detectValue value).toOption

lemma detected_of_ok {x : ValueVariant} (h : detectValue value = .ok x) :
    detected value = some x := by
  rw [detected, h]
  rfl

lemma firstText_cons (o : Options W) (n : Text) (g : Group) (gs : List Group) :
    o.firstText n (g :: gs) = (o.firstText n [g]).or (o.firstText n gs) := by
  by_cases hg : o.Supplies n g
  · obtain ⟨name, value, isShort, hg, hname⟩ := hg
    rw [firstText_cons_of_eq hg hname, firstText_cons_of_eq hg hname]
    rfl
  · rw [firstText_cons_of_not hg, firstText_cons_of_not hg]
    rfl

namespace Handled

variable {p : Except Exn Bool × Options W} (hp : Handled o m value p)

include hp

/-- An option that is handled keeps its entry, or gets its first one. -/
lemma lookup_values (h : p.1 = .ok true) (n : Text) :
    p.2.values.lookup n = (o.values.lookup n).or (if m = n then detected value else none) := by
  cases hp with
  | refused world _ hne => exact absurd h hne
  | held world _ hheld =>
    obtain ⟨x, hx⟩ := hasValue_eq_true_iff.mp hheld
    split_ifs with hmn
    · subst hmn
      simp [hx]
    · simp
  | stored world _ hheld hx =>
    split_ifs with hmn
    · subst hmn
      simp [hasValue_eq_false_iff.mp hheld, detected_of_ok hx]
    · simp [Finmap.lookup_insert_of_ne _ (Ne.symm hmn)]
  | failed world _ _ _ => cases h

/-- A new entry is made of the text, which the validator has taken. -/
lemma eq_or_new {x : ValueVariant} (hx : p.2.values.lookup n = some x) :
    o.values.lookup n = some x ∨
      m = n ∧ o.hasValue n = false ∧ o.Accepts n value ∧ detectValue value = .ok x := by
  cases hp with
  | refused world _ _ => exact .inl hx
  | held world _ _ => exact .inl hx
  | stored world haccepts hheld hdetect =>
    by_cases hmn : m = n
    · subst hmn
      rw [Finmap.lookup_insert, Option.some.injEq] at hx
      exact .inr ⟨rfl, hheld, haccepts, hx ▸ hdetect⟩
    · rw [Finmap.lookup_insert_of_ne _ (Ne.symm hmn)] at hx
      exact .inl hx
  | failed world _ _ _ => exact .inl hx

lemma validators : p.2.validators = o.validators := by
  cases hp <;> rfl

lemma allowUnrecognized : p.2.allowUnrecognized = o.allowUnrecognized := by
  cases hp <;> rfl

/-- Only a validator throws. -/
lemma eq_of_error {e : Exn} (h : p.1 = .error e) : (o.validateOption m value).1 = .error e := by
  cases hp with
  | refused world hresult _ => exact hresult.trans h
  | held world _ _ => cases h
  | stored world _ _ _ => cases h
  | failed world _ _ _ => cases h

lemma eq_true_iff : p.1 = .ok true ↔
    o.Accepts m value ∧ (o.hasValue m = false → ∃ x, detectValue value = .ok x) := by
  cases hp with
  | refused world h hne => exact iff_of_false hne fun hp => hne (h ▸ hp.1)
  | held world haccepts hheld => exact iff_of_true rfl ⟨haccepts, by simp [hheld]⟩
  | stored world haccepts _ hx => exact iff_of_true rfl ⟨haccepts, fun _ => ⟨_, hx⟩⟩
  | failed world _ hheld he =>
    refine iff_of_false (by simp) fun hp => ?_
    obtain ⟨x, hx⟩ := hp.2 hheld
    rw [he] at hx
    cases hx

end Handled

/-- What the loop of `parse` can do with a group: handle the option it is for, or, where it names
no option that is known or is a positional argument, leave all options alone. -/
inductive GroupHandled (o : Options W) (g : Group) (p : Except Exn Bool × Options W) : Prop
  | known {m value : Text} (hm : o.Supplies m g) (hvalue : o.firstText m [g] = some value)
      (hp : Handled o m value p)
  | other (args : List Text) (hnone : ∀ n, ¬ o.Supplies n g)
      (heq : p.2 = { o with positionalArgs := args })
      (htrue : p.1 = .ok true ↔ g.option?.isSome → o.allowUnrecognized = true)
      (hne : ∀ e, p.1 ≠ .error e)

lemma groupHandled (o : Options W) (g : Group) : GroupHandled o g (o.handleGroup g) := by
  rw [handleGroup]
  cases hopt : g.option? with
  | none =>
    refine .other _ ?_ rfl (by simp [hopt]) (by simp)
    rintro n ⟨name, value, isShort, hopt', -⟩
    cases hopt.symm.trans hopt'
  | some call =>
    obtain ⟨name, value, isShort⟩ := call
    simp only [handleOption_eq]
    cases hname : o.longNameOf isShort name with
    | none =>
      refine .other o.positionalArgs ?_ rfl (by simp [hopt]) (by simp)
      rintro n ⟨name', value', isShort', hopt', hname'⟩
      cases hopt.symm.trans hopt'
      cases hname.symm.trans hname'
    | some m =>
      exact .known ⟨name, value, isShort, hopt, hname⟩ (firstText_cons_of_eq hopt hname [])
        (handled o m value)

lemma Supplies.unique (h : o.Supplies m g) (h' : o.Supplies n g) : m = n := by
  obtain ⟨name, value, isShort, hopt, hname⟩ := h
  obtain ⟨name', value', isShort', hopt', hname'⟩ := h'
  rw [hopt] at hopt'
  cases hopt'
  rw [hname] at hname'
  exact Option.some.inj hname'

lemma firstText_of_not_supplies (h : ¬ o.Supplies n g) : o.firstText n [g] = none :=
  firstText_cons_of_not h []

/-- A group that is handled leaves an entry alone, unless it gives the option its first value. -/
lemma lookup_values_handleGroup (h : (o.handleGroup g).1 = .ok true) (n : Text) :
    (o.handleGroup g).2.values.lookup n =
      (o.values.lookup n).or ((o.firstText n [g]).bind detected) := by
  cases groupHandled o g with
  | known hm hvalue hp =>
    rw [hp.lookup_values h]
    split_ifs with hmn
    · rw [← hmn, hvalue, Option.bind_some]
    · rw [firstText_of_not_supplies fun hn => hmn (hm.unique hn), Option.bind_none]
  | other args hnone heq _ _ =>
    rw [heq, firstText_of_not_supplies (hnone n), Option.bind_none, Option.or_none]

/-- A new entry is made of a text for the option, which its validator has taken. -/
lemma eq_or_new_handleGroup {x : ValueVariant}
    (hx : (o.handleGroup g).2.values.lookup n = some x) :
    o.values.lookup n = some x ∨ o.hasValue n = false ∧ ∃ value, o.firstText n [g] = some value ∧
      o.Accepts n value ∧ detectValue value = .ok x := by
  cases groupHandled o g with
  | known hm hvalue hp =>
    rcases hp.eq_or_new hx with hx | ⟨rfl, hnone, haccepts, hdetect⟩
    · exact .inl hx
    · exact .inr ⟨hnone, _, hvalue, haccepts, hdetect⟩
  | other args hnone heq _ _ =>
    rw [heq] at hx
    exact .inl hx

lemma validators_handleGroup (o : Options W) (g : Group) :
    (o.handleGroup g).2.validators = o.validators := by
  cases groupHandled o g with
  | known hm hvalue hp => exact hp.validators
  | other args hnone heq _ _ => rw [heq]

lemma allowUnrecognized_handleGroup (o : Options W) (g : Group) :
    (o.handleGroup g).2.allowUnrecognized = o.allowUnrecognized := by
  cases groupHandled o g with
  | known hm hvalue hp => exact hp.allowUnrecognized
  | other args hnone heq _ _ => rw [heq]

/-- The texts of the groups for the option with long name `n`. -/
def texts (o : Options W) (n : Text) (gs : List Group) : List Text :=
  (optionGroups gs).filterMap fun (name, value, isShort) =>
    if o.longNameOf isShort name = some n then some value else none

lemma head?_texts (o : Options W) (n : Text) (gs : List Group) :
    (o.texts n gs).head? = o.firstText n gs := by
  rw [texts, firstText, List.head?_filterMap]

lemma texts_cons (o : Options W) (n : Text) (g : Group) (gs : List Group) :
    o.texts n (g :: gs) = (o.firstText n [g]).toList ++ o.texts n gs := by
  rw [texts, firstText, optionGroups, optionGroups, List.filterMap_cons]
  cases hopt : g.option? with
  | none => simp [hopt, texts, optionGroups]
  | some call =>
    simp only [List.filterMap_cons, hopt, List.filterMap_nil, List.findSome?_cons]
    split_ifs <;> rfl

/-- When a group is handled. -/
lemma handleGroup_eq_true_iff : (o.handleGroup g).1 = .ok true ↔
    ((∀ n, ¬ o.Supplies n g) → g.option?.isSome → o.allowUnrecognized = true) ∧
      ∀ n value, o.firstText n [g] = some value →
        o.Accepts n value ∧ (o.hasValue n = false → ∃ x, detectValue value = .ok x) := by
  cases groupHandled o g with
  | known hm hvalue hp =>
    rw [hp.eq_true_iff]
    constructor
    · intro h
      refine ⟨fun hnone => absurd hm (hnone _), fun n value' hvalue' => ?_⟩
      by_cases hn : o.Supplies n g
      · obtain rfl := hm.unique hn
        rw [hvalue, Option.some.injEq] at hvalue'
        exact hvalue' ▸ h
      · rw [firstText_of_not_supplies hn] at hvalue'
        cases hvalue'
    · intro h
      exact h.2 _ _ hvalue
  | other args hnone _ htrue _ =>
    rw [htrue]
    constructor
    · intro h
      refine ⟨fun _ => h, fun n value hvalue => ?_⟩
      rw [firstText_of_not_supplies (hnone n)] at hvalue
      cases hvalue
    · intro h
      exact h.1 hnone

/-! ### The loop -/

lemma fst_runGroups_cons : (o.runGroups (g :: gs)).1 = .ok true ↔
    (o.handleGroup g).1 = .ok true ∧ ((o.handleGroup g).2.runGroups gs).1 = .ok true :=
  fst_andThen_eq_true_iff

lemma snd_runGroups_cons (h : (o.handleGroup g).1 = .ok true) :
    (o.runGroups (g :: gs)).2 = ((o.handleGroup g).2.runGroups gs).2 := by
  rw [runGroups_cons, andThen_of_eq_true h]

/-- A first value of an option that is handled is one that detection makes. -/
lemma exists_detected (h : (o.handleGroup g).1 = .ok true) (hnone : o.values.lookup n = none)
    (hvalue : o.firstText n [g] = some value) : ∃ x, detected value = some x := by
  obtain ⟨x, hx⟩ :=
    ((handleGroup_eq_true_iff.mp h).2 n value hvalue).2 (hasValue_eq_false_iff.mpr hnone)
  exact ⟨x, detected_of_ok hx⟩

/-- An option is without a value after a group that is handled when it was before and the group is
not one for it. -/
lemma hasValue_handleGroup_eq_false_iff (h : (o.handleGroup g).1 = .ok true) :
    (o.handleGroup g).2.hasValue n = false ↔ o.hasValue n = false ∧ o.firstText n [g] = none := by
  rw [hasValue_eq_false_iff, hasValue_eq_false_iff, lookup_values_handleGroup h,
    Option.or_eq_none_iff]
  refine and_congr_right fun hnone => ?_
  cases hgroup : o.firstText n [g] with
  | none => simp
  | some value =>
    obtain ⟨x, hx⟩ := exists_detected h hnone hgroup
    simp [hx]

/-- A loop that comes to its end leaves every entry alone that is there, and makes the others of
the first texts for their options. -/
lemma lookup_values_runGroups (h : (o.runGroups gs).1 = .ok true) (n : Text) :
    (o.runGroups gs).2.values.lookup n =
      (o.values.lookup n).or ((o.firstText n gs).bind detected) := by
  induction gs generalizing o with
  | nil => simp [runGroups, firstText, optionGroups]
  | cons g gs ih =>
    obtain ⟨hfirst, hrest⟩ := fst_runGroups_cons.mp h
    have hentry := lookup_values_handleGroup hfirst n
    rw [snd_runGroups_cons hfirst, ih hrest, firstText_congr (Extends.handleGroup o g).longNameOf,
      firstText_cons, hentry]
    cases hlookup : o.values.lookup n with
    | some x => rfl
    | none =>
      cases hgroup : o.firstText n [g] with
      | none => rfl
      | some value =>
        obtain ⟨x, hx⟩ := exists_detected hfirst hlookup hgroup
        simp [hx]

lemma positionalArgs_runGroups (h : (o.runGroups gs).1 = .ok true) :
    (o.runGroups gs).2.positionalArgs = o.positionalArgs ++ positionals gs := by
  have hrun : o.runGroups gs = (.ok true, (o.runGroups gs).2) := Prod.ext h rfl
  obtain ⟨o₁, -, heq⟩ := runGroups_eq_true_iff.mp hrun
  rw [heq]
  rfl

/-! ### Pure validators -/

/-- The callback has no state, and throws nothing but standard exceptions. -/
def IsPure (callback : ValidationCallback W) : Prop :=
  ∃ f : Text → Except Exn Bool, (∀ value e, f value = .error e → e.isStd) ∧
    ∀ value world, callback value world = (f value, world)

def HasPure (o : Options W) : Prop :=
  ∀ n callback, o.validators.lookup n = some callback → IsPure callback

lemma HasPure.congr (h : o.HasPure) (heq : o'.validators = o.validators) : o'.HasPure := by
  intro n callback hcallback
  exact h n callback (heq ▸ hcallback)

lemma HasPure.accepts_congr (h : o.HasPure) (heq : o'.validators = o.validators) :
    o'.Accepts m value ↔ o.Accepts m value := by
  rw [Accepts, Accepts, validateOption, validateOption, heq]
  cases hm : o.validators.lookup m with
  | none => exact Iff.rfl
  | some callback =>
    obtain ⟨f, -, hf⟩ := h m callback hm
    simp [hf]

lemma HasPure.isStd_of_validateOption (h : o.HasPure) {e : Exn}
    (he : (o.validateOption m value).1 = .error e) : e.isStd = true := by
  rw [validateOption] at he
  cases hm : o.validators.lookup m with
  | none => simp [hm] at he
  | some callback =>
    obtain ⟨f, hstd, hf⟩ := h m callback hm
    simp only [hm, hf] at he
    exact hstd value e he

/-- When a loop with pure validators comes to its end: every group that is for no option is allowed,
every validator takes the texts for its option, and detection makes something of the first texts
for the options that have no value. The order of the groups is not in it. -/
lemma HasPure.runGroups_eq_true_iff (hpure : o.HasPure) : (o.runGroups gs).1 = .ok true ↔
    (∀ g ∈ gs, (∀ n, ¬ o.Supplies n g) → g.option?.isSome → o.allowUnrecognized = true) ∧
      ∀ n, (∀ value ∈ o.texts n gs, o.Accepts n value) ∧
        (o.hasValue n = false → ∀ value, o.firstText n gs = some value →
          ∃ x, detectValue value = .ok x) := by
  induction gs generalizing o with
  | nil => simp [runGroups, texts, firstText, optionGroups]
  | cons g gs ih =>
    have hvalidators := validators_handleGroup o g
    have hextends := Extends.handleGroup o g
    have hallow := allowUnrecognized_handleGroup o g
    have hsupplies : ∀ n g', (o.handleGroup g).2.Supplies n g' ↔ o.Supplies n g' := by
      intro n g'
      simp only [Supplies, hextends.longNameOf]
    have htexts : ∀ n, (o.handleGroup g).2.texts n gs = o.texts n gs := by
      intro n
      simp only [texts, hextends.longNameOf]
    rw [fst_runGroups_cons, ih (hpure.congr hvalidators)]
    simp only [hsupplies, htexts, hallow, hpure.accepts_congr hvalidators,
      firstText_congr hextends.longNameOf, List.forall_mem_cons]
    constructor
    · rintro ⟨hfirst, hunknown, hrest⟩
      obtain ⟨hgroup, htaken⟩ := handleGroup_eq_true_iff.mp hfirst
      refine ⟨⟨hgroup, hunknown⟩, fun n => ⟨fun value hvalue => ?_, fun hnone value hvalue => ?_⟩⟩
      · rw [texts_cons, List.mem_append, Option.mem_toList] at hvalue
        rcases hvalue with hvalue | hvalue
        · exact (htaken n value hvalue).1
        · exact (hrest n).1 value hvalue
      · rw [firstText_cons] at hvalue
        cases hfirstText : o.firstText n [g] with
        | some value' =>
          rw [hfirstText, Option.some_or] at hvalue
          exact (htaken n value (hfirstText.trans hvalue)).2 hnone
        | none =>
          rw [hfirstText, Option.none_or] at hvalue
          have hstill := (hasValue_handleGroup_eq_false_iff hfirst).mpr ⟨hnone, hfirstText⟩
          exact (hrest n).2 hstill value hvalue
    · rintro ⟨⟨hgroup, hunknown⟩, hrest⟩
      have hfirst : (o.handleGroup g).1 = .ok true := by
        refine handleGroup_eq_true_iff.mpr ⟨hgroup, fun n value hvalue => ⟨?_, fun hnone => ?_⟩⟩
        · apply (hrest n).1 value
          simp [texts_cons, hvalue]
        · apply (hrest n).2 hnone value
          rw [firstText_cons, hvalue, Option.some_or]
      refine ⟨hfirst, hunknown, fun n => ⟨fun value hvalue => ?_, fun hstill value hvalue => ?_⟩⟩
      · apply (hrest n).1 value
        rw [texts_cons]
        exact List.mem_append_right _ hvalue
      · -- the option still has no value, so the first group was not for it
        obtain ⟨hnone, hfirstText⟩ := (hasValue_handleGroup_eq_false_iff hfirst).mp hstill
        apply (hrest n).2 hnone value
        rw [firstText_cons, hfirstText, Option.none_or, hvalue]

/-- Every entry a loop puts in is made of the first text for its option, which the validator has
taken, also when the loop does not come to its end. -/
lemma HasPure.eq_or_new_runGroups (hpure : o.HasPure) {x : ValueVariant}
    (hx : (o.runGroups gs).2.values.lookup n = some x) :
    o.values.lookup n = some x ∨ o.hasValue n = false ∧ ∃ value, o.firstText n gs = some value ∧
      o.Accepts n value ∧ detectValue value = .ok x := by
  induction gs generalizing o with
  | nil => exact .inl hx
  | cons g gs ih =>
    have hgroup : (o.handleGroup g).2.values.lookup n = some x → o.values.lookup n = some x ∨
        o.hasValue n = false ∧ ∃ value, o.firstText n (g :: gs) = some value ∧
          o.Accepts n value ∧ detectValue value = .ok x := by
      intro hx
      rcases eq_or_new_handleGroup hx with hx | ⟨hnone, value, hvalue, haccepts, hdetect⟩
      · exact .inl hx
      · refine .inr ⟨hnone, value, ?_, haccepts, hdetect⟩
        rw [firstText_cons, hvalue, Option.some_or]
    by_cases hfirst : (o.handleGroup g).1 = .ok true
    · rw [snd_runGroups_cons hfirst] at hx
      have hvalidators := validators_handleGroup o g
      rcases ih (hpure.congr hvalidators) hx with hx | ⟨hnone, value, hvalue, haccepts, hdetect⟩
      · exact hgroup hx
      · obtain ⟨hnone, hfirstText⟩ := (hasValue_handleGroup_eq_false_iff hfirst).mp hnone
        rw [firstText_congr (Extends.handleGroup o g).longNameOf] at hvalue
        refine .inr ⟨hnone, value, ?_, (hpure.accepts_congr hvalidators).mp haccepts, hdetect⟩
        rw [firstText_cons, hfirstText, Option.none_or, hvalue]
    · rw [runGroups_cons, andThen_of_ne_true hfirst] at hx
      exact hgroup hx

lemma validators_runGroups (o : Options W) (gs : List Group) :
    (o.runGroups gs).2.validators = o.validators := by
  induction gs generalizing o with
  | nil => rfl
  | cons g gs ih =>
    by_cases hfirst : (o.handleGroup g).1 = .ok true
    · rw [snd_runGroups_cons hfirst, ih, validators_handleGroup]
    · rw [runGroups_cons, andThen_of_ne_true hfirst, validators_handleGroup]

lemma longNames_runGroups (o : Options W) (gs : List Group) :
    (o.runGroups gs).2.longNames = o.longNames := (Extends.runGroups o gs).names false

/-- Nothing but standard exceptions leaves a loop with pure validators. -/
lemma HasPure.isStd_of_runGroups (hpure : o.HasPure) {e : Exn}
    (h : (o.runGroups gs).1 = .error e) : e.isStd = true := by
  induction gs generalizing o with
  | nil => cases h
  | cons g gs ih =>
    by_cases hfirst : (o.handleGroup g).1 = .ok true
    · rw [runGroups_cons, andThen_of_eq_true hfirst] at h
      exact ih (hpure.congr (validators_handleGroup o g)) h
    · rw [runGroups_cons, andThen_of_ne_true hfirst] at h
      cases groupHandled o g with
      | known _ _ hp => exact hpure.isStd_of_validateOption (hp.eq_of_error h)
      | other _ _ _ _ hne => exact absurd h (hne e)

/-- With pure validators `parse` always gives a boolean. -/
lemma HasPure.exists_parse_eq (hpure : o.HasPure) (argv : List Text) :
    ∃ b, (o.parse argv).1 = .ok b := by
  rw [parse, parseArgs_eq_runGroups]
  cases hrun : o.runGroups (groups (argv.drop 1)) with
  | mk result o₁ =>
    cases result with
    | error e =>
      have hstd := hpure.isStd_of_runGroups (congrArg Prod.fst hrun)
      exact ⟨false, by simp [hstd]⟩
    | ok b =>
      cases b with
      | false => exact ⟨false, rfl⟩
      | true => exact ⟨_, rfl⟩

lemma fst_parse_eq_true_iff (o : Options W) (argv : List Text) : (o.parse argv).1 = .ok true ↔
    (o.runGroups (groups (argv.drop 1))).1 = .ok true ∧
      (o.runGroups (groups (argv.drop 1))).2.RequiredPresent := by
  rw [parse, parseArgs_eq_runGroups]
  cases o.runGroups (groups (argv.drop 1)) with
  | mk result o₁ =>
    cases result with
    | error e => cases e <;> simp [Exn.isStd]
    | ok b => cases b <;> simp

end Options

end Cli
