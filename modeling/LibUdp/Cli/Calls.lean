import LibUdp.Cli.Effect
import LibUdp.Run.Basic

/-!
# Runs of an option store

The public member functions that change an `Options` object, called in any order by a program that
catches what they throw.
-/

namespace Cli

open Text Run

inductive Call (W : Type) where
  /-- `add_option` in the given environment, or `add_validation` -/
  | register (env : Text → Option Text) (r : Registration W)
  | parse (argv : List Text)
  | clear

namespace Options

variable {W : Type}

/-- `Options::clear`. -/
def clear (o : Options W) : Options W :=
  { o with
    shortNames := ∅, longNames := ∅, values := ∅, validators := ∅, positionalArgs := [] }

/-- The store after a call. -/
def call (o : Options W) : Call W → Options W
  | .register env r => o.register env r
  | .parse argv     => (o.parse argv).2
  | .clear          => o.clear

def step (o : Options W) (c : Call W) : Option (Options W) := some (o.call c)

/-! ### What registration does -/

/-- The value `add_option` stores. -/
def initialValue (env : Text → Option Text) (T : OptionType) (desc : OptionDescriptor) :
    Option ValueVariant :=
  (initialText env desc).bind fun text => (T.convert text).toOption.map T.wrap

/-- The entry `name` gets the value, if there is one. -/
def setValue (values : Finmap fun _ : Text => ValueVariant) (name : Text) :
    Option ValueVariant → Finmap fun _ : Text => ValueVariant
  | some x => values.insert name x
  | none   => values

lemma lookup_setValue (values : Finmap fun _ : Text => ValueVariant) (name n : Text)
    (x : Option ValueVariant) :
    (setValue values name x).lookup n = if n = name then x.or (values.lookup n)
      else values.lookup n := by
  cases x with
  | none => simp [setValue]
  | some x =>
    split_ifs with hn
    · rw [hn, setValue, Finmap.lookup_insert, Option.some_or]
    · rw [setValue, Finmap.lookup_insert_of_ne _ hn]

variable (o : Options W) (env : Text → Option Text) (T : OptionType) (desc : OptionDescriptor)

lemma fst_handleValue_eq_ok_iff {name text : Text} : (o.handleValue T name text).1 = .ok () ↔
    (∃ x, T.convert text = .ok x) ∧ o.Accepts name text := by
  rw [handleValue, Accepts, validateOption]
  cases T.convert text with
  | error e => simp
  | ok x =>
    dsimp only
    cases o.validators.lookup name with
    | none => simp
    | some callback =>
      dsimp only
      rcases callback text o.world with ⟨_ | _ | _, world⟩ <;> simp

lemma snd_handleValue (name text : Text) : ∃ world, (o.handleValue T name text).2 =
    { o with world, values := setValue o.values name ((T.convert text).toOption.map T.wrap) } := by
  rw [handleValue]
  cases T.convert text with
  | error e => exact ⟨o.world, rfl⟩
  | ok x =>
    dsimp only
    cases o.validators.lookup name with
    | none => exact ⟨o.world, rfl⟩
    | some callback =>
      dsimp only
      rcases callback text o.world with ⟨_ | _ | _, world⟩ <;> exact ⟨world, rfl⟩

/-- `add_option` stores the descriptor and the value, whether or not it throws after that. -/
lemma snd_addOption (h : ¬ (desc.shortName = [] ∧ desc.longName = [])) :
    ∃ world, (o.addOption env T desc).2 = { o.addDescriptor desc with
      world, values := setValue o.values desc.longName (initialValue env T desc) } := by
  rw [addOption, if_neg h]
  cases htext : initialText env desc with
  | none =>
    refine ⟨(o.addDescriptor desc).world, ?_⟩
    rw [initialValue, htext, Option.bind_none, setValue, ← addDescriptor_values o desc]
  | some text =>
    obtain ⟨world, hworld⟩ := (o.addDescriptor desc).snd_handleValue T desc.longName text
    exact ⟨world, by simpa [initialValue, htext] using hworld⟩

lemma validators_addOption : (o.addOption env T desc).2.validators = o.validators := by
  by_cases h : desc.shortName = [] ∧ desc.longName = []
  · rw [addOption, if_pos h]
  · obtain ⟨world, hworld⟩ := o.snd_addOption env T desc h
    rw [hworld]
    exact addDescriptor_validators o desc

lemma longNameOf_addOption (isShort : Bool) (name : Text) :
    (o.addOption env T desc).2.longNameOf isShort name =
      if name ≠ [] ∧ name = (if isShort then desc.shortName else desc.longName) then
        some desc.longName
      else o.longNameOf isShort name := by
  by_cases h : desc.shortName = [] ∧ desc.longName = []
  · have hnone : ¬ (name ≠ [] ∧ name = if isShort then desc.shortName else desc.longName) := by
      rw [h.1, h.2, ite_self]
      exact fun hname => hname.1 hname.2
    rw [addOption, if_pos h, if_neg hnone]
  · obtain ⟨world, hworld⟩ := o.snd_addOption env T desc h
    rw [hworld, ← longNameOf_addDescriptor]
    rfl

/-! ### Names -/

variable {o o' : Options W}

/-- A name has its meaning from before the call, or from the registration of an option with it. -/
lemma longNameOf_call {c : Call W} {isShort : Bool} {name n : Text}
    (h : (o.call c).longNameOf isShort name = some n) :
    o.longNameOf isShort name = some n ∨ ∃ desc : OptionDescriptor, name ≠ [] ∧
      name = (if isShort then desc.shortName else desc.longName) ∧ desc.longName = n := by
  cases c with
  | register env r =>
    cases r with
    | addOption T desc =>
      rw [call, register, longNameOf_addOption] at h
      by_cases heq : name ≠ [] ∧ name = if isShort then desc.shortName else desc.longName
      · rw [if_pos heq] at h
        exact .inr ⟨desc, heq.1, heq.2, Option.some.inj h⟩
      · rw [if_neg heq] at h
        exact .inl h
    | addValidation name' callback =>
      rw [call, register, addValidation] at h
      split_ifs at h
      · exact .inl h
      · exact .inl h
  | parse argv =>
    rw [call, snd_parse, (Extends.runGroups o _).longNameOf] at h
    exact .inl h
  | clear => simp [call, clear, longNameOf, names] at h

/-- Every long name stands for the option of that name. -/
def Keyed (o : Options W) : Prop :=
  ∀ name n, o.longNameOf false name = some n → name = n ∧ n ≠ []

lemma Keyed.init (allowUnrecognized : Bool) (world : W) :
    Keyed { allowUnrecognized, world } := by
  intro name n h
  simp [longNameOf, names] at h

lemma Keyed.call (h : Keyed o) (c : Call W) : Keyed (o.call c) := by
  intro name n hname
  rcases longNameOf_call hname with hold | ⟨desc, hne, heq, hn⟩
  · exact h name n hold
  · have hname : name = n := heq.trans hn
    exact ⟨hname, hname ▸ hne⟩

lemma Keyed.visits {cs : List (Call W)} (h : Visits step o cs o') (ho : Keyed o) : Keyed o' := by
  refine h.invariant ?_ ho
  rintro o c _ ho ⟨⟩
  exact ho.call c

/-- The empty text is no name. -/
def Named (o : Options W) : Prop := ∀ isShort, o.longNameOf isShort [] = none

lemma Named.init (allowUnrecognized : Bool) (world : W) :
    Named { allowUnrecognized, world } := by
  intro isShort
  cases isShort <;> rfl

lemma Named.call (h : Named o) (c : Call W) : Named (o.call c) := by
  intro isShort
  by_contra hne
  obtain ⟨n, hn⟩ := Option.ne_none_iff_exists'.mp hne
  rcases longNameOf_call hn with hold | ⟨desc, hne, -, -⟩
  · rw [h isShort] at hold
    cases hold
  · exact hne rfl

lemma Named.visits {cs : List (Call W)} (h : Visits step o cs o') (ho : Named o) : Named o' := by
  refine h.invariant ?_ ho
  rintro o c _ ho ⟨⟩
  exact ho.call c

end Options

end Cli
