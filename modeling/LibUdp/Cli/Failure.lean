import LibUdp.Cli.Effect

/-!
# What a failed parse leaves behind

`parse` stops at the first group that is refused. That group has touched nothing but the state of
the validator that was asked.
-/

namespace Cli

open Text

namespace Options

variable {W : Type} {o : Options W} {g : Group} {gs : List Group} {argv : List Text}

/-- Why `parse` gives `false` at a group: the name is not known, the validator rejects the text or
throws a standard exception, or the text cannot be converted. -/
inductive Refuses (o : Options W) (g : Group) : Prop
  | unknown {name value : Text} {isShort : Bool} (hg : g.option? = some (name, value, isShort))
      (hname : o.longNameOf isShort name = none) (hallow : o.allowUnrecognized = false)
  | rejected {name value m : Text} {isShort : Bool} (hg : g.option? = some (name, value, isShort))
      (hname : o.longNameOf isShort name = some m) (h : (o.validateOption m value).1 = .ok false)
  | threw {name value m : Text} {isShort : Bool} {e : Exn}
      (hg : g.option? = some (name, value, isShort))
      (hname : o.longNameOf isShort name = some m)
      (h : (o.validateOption m value).1 = .error e) (hstd : e.isStd = true)
  | unconverted {name value m : Text} {isShort : Bool} {e : ConversionError}
      (hg : g.option? = some (name, value, isShort))
      (hname : o.longNameOf isShort name = some m) (h : o.Accepts m value)
      (hempty : o.hasValue m = false) (he : detectValue value = .error e)

/-- The values and positional arguments are those of `before`, and the tables those of `o`. -/
structure Leaves (o before after : Options W) : Prop where
  values : after.values = before.values
  positionalArgs : after.positionalArgs = before.positionalArgs
  shortNames : after.shortNames = o.shortNames
  longNames : after.longNames = o.longNames
  validators : after.validators = o.validators

/-! ### One group -/

/-- The loop ends with `false`, or with an exception that `parse` turns into `false`. -/
def StopsFalse (result : Except Exn Bool) : Prop :=
  result = .ok false ∨ ∃ e, result = .error e ∧ e.isStd = true

lemma StopsFalse.ne_true {result : Except Exn Bool} (h : StopsFalse result) :
    result ≠ .ok true := by
  rintro rfl
  rcases h with h | ⟨e, h, -⟩ <;> cases h

lemma handleGroup_of_option {name value : Text} {isShort : Bool}
    (hg : g.option? = some (name, value, isShort)) :
    o.handleGroup g = match o.longNameOf isShort name with
      | none   => (.ok o.allowUnrecognized, o)
      | some m => andThen (o.validateOption m value) (·.storeValue m value) := by
  rw [handleGroup, hg]
  exact handleOption_eq o name value isShort

/-- Nothing is stored when the validator does not take the text. -/
lemma handleGroup_of_ne_true {name value m : Text} {isShort : Bool} {result : Except Exn Bool}
    (hg : g.option? = some (name, value, isShort)) (hname : o.longNameOf isShort name = some m)
    (h : (o.validateOption m value).1 = result) (hne : result ≠ .ok true) :
    o.handleGroup g = o.validateOption m value := by
  rw [handleGroup_of_option hg, hname]
  exact andThen_of_ne_true (h ▸ hne) _

/-- A group that is refused stops the loop, and changes no more than the validators' state. -/
lemma Refuses.handleGroup (h : Refuses o g) :
    StopsFalse (o.handleGroup g).1 ∧ ∃ world, (o.handleGroup g).2 = { o with world } := by
  cases h with
  | unknown hg hname hallow =>
    rw [handleGroup_of_option hg, hname]
    exact ⟨.inl (congrArg Except.ok hallow), o.world, rfl⟩
  | rejected hg hname h =>
    rw [handleGroup_of_ne_true hg hname h (by simp)]
    exact ⟨.inl h, o.snd_validateOption _ _⟩
  | threw hg hname h hstd =>
    rw [handleGroup_of_ne_true hg hname h (by simp)]
    exact ⟨.inr ⟨_, h, hstd⟩, o.snd_validateOption _ _⟩
  | @unconverted name value m isShort e hg hname h hempty he =>
    obtain ⟨world, hworld⟩ := o.snd_validateOption m value
    have hempty' : hasValue { o with world } m = false := hempty
    rw [handleGroup_of_option hg, hname]
    dsimp only
    rw [andThen_of_eq_true h, hworld, storeValue, hempty', he]
    exact ⟨.inl rfl, world, rfl⟩

/-- A group at which the loop stops is refused. -/
lemma refuses_of_stopsFalse (h : StopsFalse (o.handleGroup g).1) : Refuses o g := by
  cases hg : g.option? with
  | none =>
    rw [Options.handleGroup, hg] at h
    exact absurd rfl h.ne_true
  | some call =>
    obtain ⟨name, value, isShort⟩ := call
    rw [handleGroup_of_option hg] at h
    cases hname : o.longNameOf isShort name with
    | none =>
      rw [hname] at h
      apply Refuses.unknown hg hname
      rcases h with h | ⟨e, h, -⟩
      · exact Except.ok.inj h
      · cases h
    | some m =>
      rw [hname] at h
      have hp := handled o m value
      dsimp only at h
      generalize andThen (o.validateOption m value) (·.storeValue m value) = p at h hp
      cases hp with
      | refused world hresult hne =>
        rcases h with rfl | ⟨e, rfl, hstd⟩
        · exact .rejected hg hname hresult
        · exact .threw hg hname hresult hstd
      | held world _ _ => exact absurd rfl h.ne_true
      | stored world _ _ _ => exact absurd rfl h.ne_true
      | failed world haccepts hempty he => exact .unconverted hg hname haccepts hempty he

/-! ### The whole loop -/

/-- A loop that stops does so at one of its groups. -/
lemma exists_stop (h : (o.runGroups gs).1 ≠ .ok true) :
    ∃ pre g post, gs = pre ++ g :: post ∧ (o.runGroups pre).1 = .ok true ∧
      ((o.runGroups pre).2.handleGroup g).1 ≠ .ok true := by
  induction gs generalizing o with
  | nil => exact absurd rfl h
  | cons g gs ih =>
    by_cases hfirst : (o.handleGroup g).1 = .ok true
    · rw [runGroups_cons, andThen_of_eq_true hfirst] at h
      obtain ⟨pre, g', post, rfl, hpre, hstop⟩ := ih h
      refine ⟨g :: pre, g', post, rfl, fst_runGroups_cons.mpr ⟨hfirst, hpre⟩, ?_⟩
      rw [snd_runGroups_cons hfirst]
      exact hstop
    · exact ⟨[], g, gs, rfl, rfl, hfirst⟩

/-- What stops the loop is its result. -/
lemma runGroups_of_stop {pre : List Group} (hpre : (o.runGroups pre).1 = .ok true)
    (hstop : ((o.runGroups pre).2.handleGroup g).1 ≠ .ok true) (post : List Group) :
    o.runGroups (pre ++ g :: post) = (o.runGroups pre).2.handleGroup g := by
  rw [runGroups_append, andThen_of_eq_true hpre, runGroups_cons, andThen_of_ne_true hstop]

lemma leaves_runGroups (o : Options W) (gs : List Group) :
    Leaves o (o.runGroups gs).2 (o.runGroups gs).2 :=
  ⟨rfl, rfl, (Extends.runGroups o gs).names true, (Extends.runGroups o gs).names false,
    validators_runGroups o gs⟩

lemma fst_parse_eq_false_iff : (o.parse argv).1 = .ok false ↔
    StopsFalse (o.runGroups (groups (argv.drop 1))).1 ∨
      (o.runGroups (groups (argv.drop 1))).1 = .ok true ∧
        ¬ (o.runGroups (groups (argv.drop 1))).2.RequiredPresent := by
  rw [parse, parseArgs_eq_runGroups]
  rcases o.runGroups (groups (argv.drop 1)) with ⟨e | b, o'⟩
  · simp [StopsFalse]
  · cases b <;> simp [StopsFalse]

/-- A parse that fails at a group leaves what the groups before it have left, one that fails for a
required option leaves what all groups have left, and there is no other way to fail. -/
theorem parse_failure (o : Options W) (argv : List Text) :
    (∀ pre g post, Splits (argv.drop 1) (pre ++ g :: post) →
      (o.runGroups pre).1 = .ok true → Refuses (o.runGroups pre).2 g →
        (o.parse argv).1 = .ok false ∧ Leaves o (o.runGroups pre).2 (o.parse argv).2) ∧
    (∀ gs, Splits (argv.drop 1) gs → (o.runGroups gs).1 = .ok true →
      ¬ (o.runGroups gs).2.RequiredPresent →
        (o.parse argv).1 = .ok false ∧ Leaves o (o.runGroups gs).2 (o.parse argv).2) ∧
    ((o.parse argv).1 = .ok false → ∃ gs, Splits (argv.drop 1) gs ∧
      ((∃ pre g post, gs = pre ++ g :: post ∧ (o.runGroups pre).1 = .ok true ∧
          Refuses (o.runGroups pre).2 g) ∨
        (o.runGroups gs).1 = .ok true ∧ ¬ (o.runGroups gs).2.RequiredPresent)) := by
  refine ⟨?_, ?_, ?_⟩
  · intro pre g post hsplits hpre hrefuses
    obtain ⟨hstop, world, hworld⟩ := hrefuses.handleGroup
    have hrun := runGroups_of_stop hpre hstop.ne_true post
    rw [fst_parse_eq_false_iff, snd_parse, hsplits.eq_groups, hrun]
    refine ⟨.inl hstop, ?_⟩
    rw [hworld]
    exact { leaves_runGroups o pre with values := rfl, positionalArgs := rfl }
  · intro gs hsplits hrun hmissing
    rw [fst_parse_eq_false_iff, snd_parse, hsplits.eq_groups]
    exact ⟨.inr ⟨hrun, hmissing⟩, leaves_runGroups o gs⟩
  · intro hfalse
    refine ⟨groups (argv.drop 1), splits_groups _, ?_⟩
    rcases fst_parse_eq_false_iff.mp hfalse with hstop | hmissing
    · obtain ⟨pre, g, post, heq, hpre, hne⟩ := exists_stop hstop.ne_true
      refine .inl ⟨pre, g, post, heq, hpre, refuses_of_stopsFalse ?_⟩
      rw [← runGroups_of_stop hpre hne post, ← heq]
      exact hstop
    · exact .inr hmissing

/-- The text of the second group cannot be converted, the third one is not looked at. -/
theorem parse_failure_file :
    let o := (({ world := () } : Options Unit).addOption (fun _ => none) (.scalar .string)
      { shortName := ['f'], longName := "file".toList }).2
    (o.parse ["program".toList, "input".toList, "--file=config.json".toList,
        "-f".toList, "report".toList]).1 = .ok false ∧
      Leaves o { o with positionalArgs := ["input".toList] }
        (o.parse ["program".toList, "input".toList, "--file=config.json".toList,
          "-f".toList, "report".toList]).2 := by
  intro o
  have hgroups : groups ["input".toList, "--file=config.json".toList, "-f".toList,
      "report".toList] = [.positional "input".toList,
        .assigned "file".toList "config.json".toList, .short ['f'] "report".toList] := by
    decide
  have hdetect : detectValue "config.json".toList = .error .invalidArgument := rfl
  exact (parse_failure o _).1 [.positional "input".toList] _ [.short ['f'] "report".toList]
    (hgroups ▸ splits_groups _) rfl (.unconverted rfl rfl rfl rfl hdetect)

end Options

end Cli
