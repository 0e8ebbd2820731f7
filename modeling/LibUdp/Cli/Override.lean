import LibUdp.Cli.Grammar

/-!
# Texts from registration against texts from the command line

Two option stores are compared that went through the same calls, except that one option was given
a default or an environment variable in the first and neither in the second. `parse` then runs on
both with the same arguments. The two stores differ in nothing but the entry of that option as
long as the first one holds the registered value.
-/

namespace Cli

open Text

/-- A call that sets options up. -/
inductive Registration (W : Type) where
  | addOption (T : OptionType) (desc : OptionDescriptor)
  | addValidation (name : Text) (callback : ValidationCallback W)

namespace Options

variable {W : Type}

/-- The store after a call, whose exceptions the caller catches. -/
def register (env : Text → Option Text) (o : Options W) : Registration W → Options W
  | .addOption T desc            => (o.addOption env T desc).2
  | .addValidation name callback => (o.addValidation name callback).2

def registerAll (env : Text → Option Text) (o : Options W) (rs : List (Registration W)) :
    Options W :=
  rs.foldl (register env) o

/-- `add_option` for the same option with neither default nor environment variable. The callbacks
are in the state they are in after the call it is compared with. -/
def addOptionBare (o : Options W) (env : Text → Option Text) (T : OptionType)
    (desc : OptionDescriptor) : Options W :=
  { (o.addOption env T { desc with defaultValue := none, envVar := none }).2 with
    world := (o.addOption env T desc).2.world }

/-- The long name of the option that a name on the command line stands for. -/
def longNameOf (o : Options W) (isShort : Bool) (name : Text) : Option Text :=
  ((o.names isShort).lookup name).map OptionDescriptor.longName

/-- The group is one for the option with long name `n`. -/
def Supplies (o : Options W) (n : Text) (g : Group) : Prop :=
  ∃ name value isShort, g.option? = some (name, value, isShort) ∧
    o.longNameOf isShort name = some n

/-- The text of the first group that supplies the option with long name `n`. -/
def firstText (o : Options W) (n : Text) (gs : List Group) : Option Text :=
  (optionGroups gs).findSome? fun (name, value, isShort) =>
    if o.longNameOf isShort name = some n then some value else none

lemma handleOption_eq (o : Options W) (name value : Text) (isShort : Bool) :
    o.handleOption name value isShort = match o.longNameOf isShort name with
      | none   => (.ok o.allowUnrecognized, o)
      | some m => andThen (o.validateOption m value) (·.storeValue m value) := by
  rw [handleOption, longNameOf]
  cases (o.names isShort).lookup name <;> rfl

/-! ### What parsing leaves alone -/

/-- The names are the same and no entry is lost or changed. -/
structure Extends (o o' : Options W) : Prop where
  names : ∀ isShort, o'.names isShort = o.names isShort
  lookup_values : ∀ {m x}, o.values.lookup m = some x → o'.values.lookup m = some x

namespace Extends

variable {o o' o'' : Options W}

@[refl] lemma refl (o : Options W) : Extends o o := ⟨fun _ => rfl, fun h => h⟩

@[trans] lemma trans (h : Extends o o') (h' : Extends o' o'') : Extends o o'' :=
  ⟨fun isShort => (h'.names isShort).trans (h.names isShort),
    fun hx => h'.lookup_values (h.lookup_values hx)⟩

lemma of_eq (hshort : o'.shortNames = o.shortNames) (hlong : o'.longNames = o.longNames)
    (hvalues : ∀ {m x}, o.values.lookup m = some x → o'.values.lookup m = some x) :
    Extends o o' := by
  refine ⟨?_, hvalues⟩
  intro isShort
  cases isShort with
  | false => exact hlong
  | true => exact hshort

lemma longNameOf (h : Extends o o') (isShort : Bool) (name : Text) :
    o'.longNameOf isShort name = o.longNameOf isShort name := by
  rw [Options.longNameOf, Options.longNameOf, h.names]

lemma validateOption (o : Options W) (m value : Text) :
    Extends o (o.validateOption m value).2 := by
  rw [Options.validateOption]
  cases o.validators.lookup m with
  | none => exact refl o
  | some callback => exact of_eq rfl rfl fun h => h

lemma storeValue (o : Options W) (m value : Text) : Extends o (o.storeValue m value).2 := by
  rw [Options.storeValue]
  cases hm : o.hasValue m with
  | true => exact refl o
  | false =>
    cases detectValue value with
    | error e => exact refl o
    | ok y =>
      refine of_eq rfl rfl ?_
      intro k x hk
      have hne : k ≠ m := by
        rintro rfl
        simp [hasValue, hk] at hm
      simpa [Finmap.lookup_insert_of_ne _ hne] using hk

lemma andThen {p : Except Exn Bool × Options W} (h : Extends o p.2)
    {next : Options W → Except Exn Bool × Options W} (hnext : ∀ o, Extends o (next o).2) :
    Extends o (Options.andThen p next).2 := by
  by_cases hp : p.1 = .ok true
  · rw [andThen_of_eq_true hp]
    exact h.trans (hnext p.2)
  · rw [andThen_of_ne_true hp]
    exact h

lemma handleOption (o : Options W) (name value : Text) (isShort : Bool) :
    Extends o (o.handleOption name value isShort).2 := by
  rw [handleOption_eq]
  cases o.longNameOf isShort name with
  | none => exact refl o
  | some m => exact (validateOption o m value).andThen fun o => storeValue o m value

lemma handleGroup (o : Options W) (g : Group) : Extends o (o.handleGroup g).2 := by
  rw [Options.handleGroup]
  cases g.option? with
  | none => exact of_eq rfl rfl fun h => h
  | some call => exact handleOption o _ _ _

lemma runGroups (o : Options W) (gs : List Group) : Extends o (o.runGroups gs).2 := by
  induction gs generalizing o with
  | nil => exact refl o
  | cons g gs ih => exact (handleGroup o g).andThen fun o => ih o

end Extends

/-! ### Stores that differ in one entry -/

/-- Apart from the entry at `n`, `parse` treats the two stores alike. The two entries at `n` are
in the relation `E`. -/
structure AgreeOff (n : Text) (E : Option ValueVariant → Option ValueVariant → Prop)
    (a b : Options W) : Prop where
  allowUnrecognized : a.allowUnrecognized = b.allowUnrecognized
  longNameOf : ∀ isShort name, a.longNameOf isShort name = b.longNameOf isShort name
  lookup_values : ∀ name, name ≠ n → a.values.lookup name = b.values.lookup name
  validators : a.validators = b.validators
  world : a.world = b.world
  entry : E (a.values.lookup n) (b.values.lookup n)

variable {n : Text} {E : Option ValueVariant → Option ValueVariant → Prop} {a b : Options W}

namespace AgreeOff

lemma mono {F : Option ValueVariant → Option ValueVariant → Prop} (h : AgreeOff n E a b)
    (hF : F (a.values.lookup n) (b.values.lookup n)) : AgreeOff n F a b :=
  { h with entry := hF }

lemma setWorld (h : AgreeOff n E a b) (world : W) :
    AgreeOff n E { a with world } { b with world } :=
  { h with world := rfl }

/-- The same value is stored elsewhere. -/
lemma insert_of_ne (h : AgreeOff n E a b) {m : Text} (hm : m ≠ n) (x : ValueVariant) :
    AgreeOff n E { a with values := a.values.insert m x }
      { b with values := b.values.insert m x } where
  __ := h
  lookup_values name hname := by
    by_cases heq : name = m
    · subst heq
      simp
    · simp [Finmap.lookup_insert_of_ne _ heq, h.lookup_values name hname]
  entry := by simpa [Finmap.lookup_insert_of_ne _ (Ne.symm hm)] using h.entry

/-- Values that are changed at `n` only. -/
lemma setValues (h : AgreeOff n E a b) {F : Option ValueVariant → Option ValueVariant → Prop}
    {va vb : Finmap fun _ : Text => ValueVariant}
    (ha : ∀ name, name ≠ n → va.lookup name = a.values.lookup name)
    (hb : ∀ name, name ≠ n → vb.lookup name = b.values.lookup name)
    (hF : F (va.lookup n) (vb.lookup n)) :
    AgreeOff n F { a with values := va } { b with values := vb } where
  __ := h
  lookup_values name hname := by
    rw [ha name hname, hb name hname, h.lookup_values name hname]
  entry := hF

/-- New values at `n` itself. -/
lemma insert_self (h : AgreeOff n E a b) {F : Option ValueVariant → Option ValueVariant → Prop}
    {x y : ValueVariant} (hF : F (some x) (some y)) :
    AgreeOff n F { a with values := a.values.insert n x }
      { b with values := b.values.insert n y } :=
  h.setValues (fun _ hname => Finmap.lookup_insert_of_ne _ hname)
    (fun _ hname => Finmap.lookup_insert_of_ne _ hname) (by simpa using hF)

/-- A new value at `n` in the second store only. -/
lemma insert_right (h : AgreeOff n E a b) {F : Option ValueVariant → Option ValueVariant → Prop}
    {y : ValueVariant} (hF : F (a.values.lookup n) (some y)) :
    AgreeOff n F a { b with values := b.values.insert n y } :=
  h.setValues (fun _ _ => rfl) (fun _ hname => Finmap.lookup_insert_of_ne _ hname)
    (by simpa using hF)

/-- A new value at `n` in the first store only. -/
lemma insert_left (h : AgreeOff n E a b) {F : Option ValueVariant → Option ValueVariant → Prop}
    {x : ValueVariant} (hF : F (some x) (b.values.lookup n)) :
    AgreeOff n F { a with values := a.values.insert n x } b :=
  h.setValues (fun _ hname => Finmap.lookup_insert_of_ne _ hname) (fun _ _ => rfl)
    (by simpa using hF)

lemma hasValue_of_ne (h : AgreeOff n E a b) {m : Text} (hm : m ≠ n) :
    a.hasValue m = b.hasValue m := by
  rw [hasValue, hasValue, h.lookup_values m hm]

end AgreeOff

/-- A call ends alike on the two stores. -/
structure SameOutcome (n : Text) (E : Option ValueVariant → Option ValueVariant → Prop)
    (p q : Except Exn Bool × Options W) : Prop where
  result : p.1 = q.1
  agree : AgreeOff n E p.2 q.2

lemma SameOutcome.andThen {p q : Except Exn Bool × Options W} (h : SameOutcome n E p q)
    {f g : Options W → Except Exn Bool × Options W}
    (hnext : ∀ a b, AgreeOff n E a b → SameOutcome n E (f a) (g b)) :
    SameOutcome n E (Options.andThen p f) (Options.andThen q g) := by
  by_cases hp : p.1 = .ok true
  · rw [andThen_of_eq_true hp, andThen_of_eq_true (h.result ▸ hp)]
    exact hnext p.2 q.2 h.agree
  · rw [andThen_of_ne_true hp, andThen_of_ne_true (h.result ▸ hp)]
    exact h

/-! ### Both stores hold a value for the option, or neither does -/

/-- The entries are both absent or both present, and equal just when `P` holds. -/
def BothHeld (P : Prop) (x y : Option ValueVariant) : Prop :=
  x.isSome = y.isSome ∧ (x = y ↔ P)

namespace AgreeOff

lemma validateOption (h : AgreeOff n E a b) (m value : Text) :
    SameOutcome n E (a.validateOption m value) (b.validateOption m value) := by
  have hlookup : a.validators.lookup m = b.validators.lookup m := by rw [h.validators]
  rw [Options.validateOption, Options.validateOption, hlookup, h.world]
  cases b.validators.lookup m with
  | none => exact ⟨rfl, h⟩
  | some callback => exact ⟨rfl, h.setWorld _⟩

lemma storeValue_of_ne (h : AgreeOff n E a b) {m : Text} (hm : m ≠ n) (value : Text) :
    SameOutcome n E (a.storeValue m value) (b.storeValue m value) := by
  rw [storeValue, storeValue, h.hasValue_of_ne hm]
  cases b.hasValue m with
  | true => exact ⟨rfl, h⟩
  | false =>
    cases detectValue value with
    | error e => exact ⟨rfl, h⟩
    | ok x => exact ⟨rfl, h.insert_of_ne hm x⟩

lemma storeValue_self {P : Prop} (h : AgreeOff n (BothHeld P) a b) (value : Text) :
    SameOutcome n (BothHeld P) (a.storeValue n value) (b.storeValue n value) := by
  have hheld : a.hasValue n = b.hasValue n := h.entry.1
  rw [storeValue, storeValue, hheld]
  cases hb : b.hasValue n with
  | true => exact ⟨rfl, h⟩
  | false =>
    cases detectValue value with
    | error e => exact ⟨rfl, h⟩
    | ok x =>
      -- neither store has a value, so the entries were equal before
      have hnone : a.values.lookup n = b.values.lookup n := by
        rw [hb] at hheld
        simp only [hasValue, Option.isSome_eq_false_iff, Option.isNone_iff_eq_none] at hheld hb
        rw [hheld, hb]
      exact ⟨rfl, h.insert_self ⟨rfl, iff_of_true rfl (h.entry.2.mp hnone)⟩⟩

/-- Any option is handled alike, unless it is the one the stores differ in. -/
lemma handleOption_of_ne (h : AgreeOff n E a b) {name value : Text} {isShort : Bool}
    (hname : b.longNameOf isShort name ≠ some n) :
    SameOutcome n E (a.handleOption name value isShort) (b.handleOption name value isShort) := by
  rw [handleOption_eq, handleOption_eq, h.longNameOf, h.allowUnrecognized]
  cases hm : b.longNameOf isShort name with
  | none => exact ⟨rfl, h⟩
  | some m =>
    have hne : m ≠ n := fun heq => hname (by rw [hm, heq])
    exact (h.validateOption m value).andThen fun _ _ h => h.storeValue_of_ne hne value

lemma handleOption {P : Prop} (h : AgreeOff n (BothHeld P) a b) (name value : Text)
    (isShort : Bool) :
    SameOutcome n (BothHeld P) (a.handleOption name value isShort)
      (b.handleOption name value isShort) := by
  by_cases hname : b.longNameOf isShort name = some n
  · rw [handleOption_eq, handleOption_eq, h.longNameOf, hname]
    exact (h.validateOption n value).andThen fun _ _ h => h.storeValue_self value
  · exact h.handleOption_of_ne hname

lemma setPositional (h : AgreeOff n E a b) (args args' : List Text) :
    AgreeOff n E { a with positionalArgs := args } { b with positionalArgs := args' } :=
  ⟨h.allowUnrecognized, h.longNameOf, h.lookup_values, h.validators, h.world, h.entry⟩

lemma handleGroup_of_not (h : AgreeOff n E a b) {g : Group} (hg : ¬ b.Supplies n g) :
    SameOutcome n E (a.handleGroup g) (b.handleGroup g) := by
  rw [Options.handleGroup, Options.handleGroup]
  cases hopt : g.option? with
  | none => exact ⟨rfl, h.setPositional _ _⟩
  | some call => exact h.handleOption_of_ne fun hname => hg ⟨_, _, _, hopt, hname⟩

lemma handleGroup {P : Prop} (h : AgreeOff n (BothHeld P) a b) (g : Group) :
    SameOutcome n (BothHeld P) (a.handleGroup g) (b.handleGroup g) := by
  rw [Options.handleGroup, Options.handleGroup]
  cases g.option? with
  | none => exact ⟨rfl, h.setPositional _ _⟩
  | some call => exact h.handleOption _ _ _

/-- The whole loop runs alike, and it neither makes the entries equal nor tells them apart. -/
lemma runGroups {P : Prop} (h : AgreeOff n (BothHeld P) a b) (gs : List Group) :
    SameOutcome n (BothHeld P) (a.runGroups gs) (b.runGroups gs) := by
  induction gs generalizing a b with
  | nil => exact ⟨rfl, h⟩
  | cons g gs ih => exact (h.handleGroup g).andThen fun _ _ h => ih h

end AgreeOff

/-! ### Only the first store holds a value for the option -/

/-- The first entry is `x` and the second is absent. -/
def OnlyFirst (x : ValueVariant) (y z : Option ValueVariant) : Prop := y = some x ∧ z = none

lemma firstText_congr (h : ∀ isShort name, a.longNameOf isShort name = b.longNameOf isShort name)
    (n : Text) (gs : List Group) : a.firstText n gs = b.firstText n gs := by
  simp only [firstText, h]

lemma firstText_cons_of_eq {o : Options W} {g : Group} {name value : Text} {isShort : Bool}
    (hg : g.option? = some (name, value, isShort)) (hname : o.longNameOf isShort name = some n)
    (gs : List Group) : o.firstText n (g :: gs) = some value := by
  simp [firstText, optionGroups, hg, hname]

lemma firstText_cons_of_not {o : Options W} {g : Group} (hg : ¬ o.Supplies n g)
    (gs : List Group) : o.firstText n (g :: gs) = o.firstText n gs := by
  rw [firstText, firstText, optionGroups, optionGroups, List.filterMap_cons]
  cases hopt : g.option? with
  | none => rfl
  | some call =>
    have hne : o.longNameOf call.2.2 call.1 ≠ some n := fun hname => hg ⟨_, _, _, hopt, hname⟩
    simp [hne]

/-- `handle_option` on the option itself: the first store keeps its value, the second gets the
one that detection makes of the text. -/
lemma AgreeOff.handleOption_onlyFirst {x : ValueVariant} (h : AgreeOff n (OnlyFirst x) a b)
    {name value : Text} {isShort : Bool} (hname : b.longNameOf isShort name = some n)
    (htrue : (a.handleOption name value isShort).1 = .ok true) :
    match detectValue value with
    | .ok y    => SameOutcome n (BothHeld (y = x)) (a.handleOption name value isShort)
        (b.handleOption name value isShort)
    | .error _ => (b.handleOption name value isShort).1 = .ok false ∧
        (b.handleOption name value isShort).2.values.lookup n = none := by
  rw [handleOption_eq, h.longNameOf, hname] at htrue ⊢
  rw [handleOption_eq, hname]
  have hvalidate := h.validateOption n value
  have hvalid := (fst_andThen_eq_true_iff.mp htrue).1
  have hvalid' := hvalidate.result ▸ hvalid
  simp only [andThen_of_eq_true hvalid, andThen_of_eq_true hvalid']
  have hagree := hvalidate.agree
  generalize (a.validateOption n value).2 = a₁ at hagree ⊢
  generalize (b.validateOption n value).2 = b₁ at hagree ⊢
  obtain ⟨hx, hnone⟩ := hagree.entry
  have ha : a₁.hasValue n = true := by simp [hasValue, hx]
  have hb : b₁.hasValue n = false := by simp [hasValue, hnone]
  rw [Options.storeValue, Options.storeValue, ha, hb]
  cases detectValue value with
  | error e => exact ⟨rfl, hnone⟩
  | ok y =>
    refine ⟨rfl, hagree.insert_right ?_⟩
    rw [hx]
    exact ⟨rfl, by rw [Option.some_inj, eq_comm]⟩

/-- The second store ends with `x` too just when detection makes `x` of the first text. -/
lemma AgreeOff.runGroups_onlyFirst {x : ValueVariant} (h : AgreeOff n (OnlyFirst x) a b)
    {gs : List Group} (htrue : (a.runGroups gs).1 = .ok true) :
    (a.runGroups gs).2.values.lookup n = (b.runGroups gs).2.values.lookup n ↔
      ∃ text, b.firstText n gs = some text ∧ detectValue text = .ok x := by
  induction gs generalizing a b with
  | nil => simp [Options.runGroups, firstText, optionGroups, h.entry.1, h.entry.2]
  | cons g gs ih =>
    have hfinal := (Extends.runGroups a (g :: gs)).lookup_values h.entry.1
    have hfirst := (fst_andThen_eq_true_iff.mp htrue).1
    rw [runGroups_cons, andThen_of_eq_true hfirst] at htrue hfinal ⊢
    by_cases hg : b.Supplies n g
    · obtain ⟨name, value, isShort, hg, hname⟩ := hg
      rw [firstText_cons_of_eq hg hname, runGroups_cons]
      simp only [Option.some.injEq, exists_eq_left']
      simp only [Options.handleGroup, hg] at hfirst htrue hfinal ⊢
      have hself := h.handleOption_onlyFirst hname hfirst
      cases hd : detectValue value with
      | error e =>
        -- the second store stops here without an entry
        simp only [hd] at hself
        rw [andThen_of_ne_true (by simp [hself.1]), hfinal, hself.2]
        simp
      | ok y =>
        -- from here on both stores hold a value
        simp only [hd] at hself
        rw [andThen_of_eq_true (hself.result ▸ hfirst)]
        have hrun := (hself.agree.runGroups gs).agree.entry.2
        rw [hrun, Except.ok.injEq]
    · have hstep := h.handleGroup_of_not hg
      rw [firstText_cons_of_not hg, runGroups_cons, andThen_of_eq_true (hstep.result ▸ hfirst)]
      have hnames := firstText_congr (Extends.handleGroup b g).longNameOf n gs
      rw [ih hstep.agree htrue, hnames]

/-! ### Registration -/

/-- The entries are equal or the first one is present. -/
def EqOrHeld (x y : Option ValueVariant) : Prop := x = y ∨ x.isSome

lemma longNameOf_addDescriptor (o : Options W) (desc : OptionDescriptor) (isShort : Bool)
    (name : Text) :
    (o.addDescriptor desc).longNameOf isShort name =
      if name ≠ [] ∧ name = (if isShort then desc.shortName else desc.longName) then
        some desc.longName
      else o.longNameOf isShort name := by
  unfold Options.addDescriptor longNameOf
  cases isShort with
  | false =>
    by_cases hname : name = desc.longName
    · subst hname
      split_ifs <;> simp_all [names]
    · split_ifs <;> simp_all [names, Finmap.lookup_insert_of_ne]
  | true =>
    by_cases hname : name = desc.shortName
    · subst hname
      split_ifs <;> simp_all [names]
    · split_ifs <;> simp_all [names, Finmap.lookup_insert_of_ne]

namespace AgreeOff

lemma addDescriptor (h : AgreeOff n E a b) {d d' : OptionDescriptor}
    (hshort : d.shortName = d'.shortName) (hlong : d.longName = d'.longName) :
    AgreeOff n E (a.addDescriptor d) (b.addDescriptor d') where
  allowUnrecognized := by simpa using h.allowUnrecognized
  longNameOf isShort name := by
    rw [longNameOf_addDescriptor, longNameOf_addDescriptor, h.longNameOf, hshort, hlong]
  lookup_values := by simpa using h.lookup_values
  validators := by simpa using h.validators
  world := by simpa using h.world
  entry := by simpa using h.entry

lemma handleValue (h : AgreeOff n EqOrHeld a b) (T : OptionType) (m text : Text) :
    AgreeOff n EqOrHeld (a.handleValue T m text).2 (b.handleValue T m text).2 := by
  rw [Options.handleValue, Options.handleValue]
  cases T.convert text with
  | error e => exact h
  | ok x =>
    have hstored : AgreeOff n EqOrHeld { a with values := a.values.insert m (T.wrap x) }
        { b with values := b.values.insert m (T.wrap x) } := by
      by_cases hm : m = n
      · subst hm
        exact h.insert_self (.inl rfl)
      · exact h.insert_of_ne hm _
    have hlookup : a.validators.lookup m = b.validators.lookup m := by rw [h.validators]
    simp only [hlookup, h.world]
    cases b.validators.lookup m with
    | none => exact hstored.setWorld b.world
    | some callback =>
      dsimp only
      rcases callback text b.world with ⟨_ | _ | _, world⟩ <;> exact hstored.setWorld world

/-- Only the first of two equal stores converts a text for the option. -/
lemma handleValue_left (h : AgreeOff n Eq a b) (T : OptionType) (text : Text) :
    AgreeOff n EqOrHeld (a.handleValue T n text).2
      { b with world := (a.handleValue T n text).2.world } := by
  rw [Options.handleValue]
  cases T.convert text with
  | error e => exact (h.mono (.inl h.entry)).setWorld a.world
  | ok x =>
    have hstored : AgreeOff n EqOrHeld { a with values := a.values.insert n (T.wrap x) } b :=
      h.insert_left (.inr rfl)
    dsimp only
    cases a.validators.lookup n with
    | none => exact hstored.setWorld a.world
    | some callback =>
      dsimp only
      rcases callback text a.world with ⟨_ | _ | _, world⟩ <;> exact hstored.setWorld world

lemma rfl_eq (o : Options W) : AgreeOff n Eq o o :=
  ⟨rfl, fun _ _ => rfl, fun _ _ => rfl, rfl, rfl, rfl⟩

/-- The two stores right after `add_option`. -/
lemma addOptionBare (o : Options W) (env : Text → Option Text) (T : OptionType)
    (desc : OptionDescriptor) :
    AgreeOff desc.longName EqOrHeld (o.addOption env T desc).2 (o.addOptionBare env T desc) := by
  have hself : AgreeOff desc.longName Eq o o := rfl_eq o
  rw [Options.addOptionBare, Options.addOption, Options.addOption]
  split_ifs with hnames
  · exact (hself.mono (.inl rfl)).setWorld o.world
  · have hdesc : AgreeOff desc.longName Eq (o.addDescriptor desc)
        (o.addDescriptor { desc with defaultValue := none, envVar := none }) :=
      hself.addDescriptor rfl rfl
    cases initialText env desc with
    | none => exact (hdesc.mono (.inl hdesc.entry)).setWorld _
    | some text => exact hdesc.handleValue_left T text

lemma register (h : AgreeOff n EqOrHeld a b) (env : Text → Option Text) (r : Registration W) :
    AgreeOff n EqOrHeld (a.register env r) (b.register env r) := by
  cases r with
  | addOption T desc =>
    rw [Options.register, Options.register, addOption, addOption]
    split_ifs with hnames
    · exact h
    · have hdesc := h.addDescriptor (d := desc) rfl rfl
      cases initialText env desc with
      | none => exact hdesc
      | some text => exact hdesc.handleValue T desc.longName text
  | addValidation name callback =>
    have hsome : (a.longNames.lookup name).isSome = (b.longNames.lookup name).isSome := by
      have hname := congrArg Option.isSome (h.longNameOf false name)
      rw [Options.longNameOf, Options.longNameOf, Option.isSome_map, Option.isSome_map] at hname
      exact hname
    rw [Options.register, Options.register, addValidation, addValidation, hsome]
    split_ifs
    · exact { h with validators := by simp only [h.validators] }
    · exact h

lemma registerAll (h : AgreeOff n EqOrHeld a b) (env : Text → Option Text)
    (rs : List (Registration W)) :
    AgreeOff n EqOrHeld (a.registerAll env rs) (b.registerAll env rs) := by
  induction rs generalizing a b with
  | nil => exact h
  | cons r rs ih => exact ih (h.register env r)

end AgreeOff

/-- The object `parse` leaves is the one its loop leaves. -/
lemma snd_parse (o : Options W) (argv : List Text) :
    (o.parse argv).2 = (o.runGroups (groups (argv.drop 1))).2 := by
  rw [parse, parseArgs_eq_runGroups]
  rcases o.runGroups (groups (argv.drop 1)) with ⟨_ | _ | _, o'⟩ <;> rfl

lemma runGroups_of_parse {o : Options W} {argv : List Text} (h : (o.parse argv).1 = .ok true) :
    (o.runGroups (groups (argv.drop 1))).1 = .ok true := by
  rw [parse, parseArgs_eq_runGroups] at h
  generalize o.runGroups (groups (argv.drop 1)) = run at h ⊢
  rcases run with ⟨e | _ | _, o'⟩
  · cases e <;> cases h
  · exact h
  · rfl

/-- `a` went through `add_option` with the given descriptor, `b` with the bare one, and both
through the same calls after it. When the option is on the command line, they end with the same
entry for it just when registration left them with the same entry already, or left `a` with the
very value that detection makes of the first text on the command line. -/
theorem values_parse_eq_iff (o : Options W) (env : Text → Option Text) (T : OptionType)
    (desc : OptionDescriptor) (rest : List (Registration W)) (argv : List Text) (text : Text)
    (a b : Options W) (ha : a = (o.addOption env T desc).2.registerAll env rest)
    (hb : b = (o.addOptionBare env T desc).registerAll env rest)
    (hsupplied : a.firstText desc.longName (groups (argv.drop 1)) = some text)
    (htrue : (a.parse argv).1 = .ok true) :
    (a.parse argv).2.values.lookup desc.longName = (b.parse argv).2.values.lookup desc.longName ↔
      a.values.lookup desc.longName = b.values.lookup desc.longName ∨
        b.values.lookup desc.longName = none ∧
          ∃ x, detectValue text = .ok x ∧ a.values.lookup desc.longName = some x := by
  have h : AgreeOff desc.longName EqOrHeld a b := by
    subst ha hb
    exact (AgreeOff.addOptionBare o env T desc).registerAll env rest
  have hfirst := firstText_congr h.longNameOf desc.longName (groups (argv.drop 1))
  have hrun := runGroups_of_parse htrue
  rw [snd_parse, snd_parse]
  by_cases heq : a.values.lookup desc.longName = b.values.lookup desc.longName
  · have hboth : AgreeOff desc.longName (BothHeld True) a b :=
      h.mono ⟨congrArg _ heq, iff_true_intro heq⟩
    have hfinal := (hboth.runGroups (groups (argv.drop 1))).agree.entry.2
    exact iff_of_true (hfinal.mpr trivial) (.inl heq)
  · obtain ⟨x, hx⟩ := Option.isSome_iff_exists.mp (h.entry.resolve_left heq)
    cases hnone : b.values.lookup desc.longName with
    | some y =>
      have hboth : AgreeOff desc.longName (BothHeld False) a b :=
        h.mono ⟨by rw [hx, hnone]; rfl, iff_false_intro heq⟩
      have hfinal := (hboth.runGroups (groups (argv.drop 1))).agree.entry.2
      rw [hfinal, hx]
      rw [hx, hnone] at heq
      simpa using heq
    | none =>
      have honly : AgreeOff desc.longName (OnlyFirst x) a b := h.mono ⟨hx, hnone⟩
      rw [honly.runGroups_onlyFirst hrun, ← hfirst, hsupplied, hx]
      simp

/-- A default that detection reads in the same way leaves the command line its say. -/
theorem values_parse_names :
    ((({ world := () } : Options Unit).addOption (fun _ => none) (.array .string)
        { shortName := [], longName := "names".toList,
          defaultValue := some "x,y".toList }).2.parse
      ["program".toList, "--names=x,y".toList]).2.values.lookup "names".toList =
    ((({ world := () } : Options Unit).addOptionBare (fun _ => none) (.array .string)
        { shortName := [], longName := "names".toList,
          defaultValue := some "x,y".toList }).parse
      ["program".toList, "--names=x,y".toList]).2.values.lookup "names".toList :=
  (values_parse_eq_iff { world := () } (fun _ => none) (.array .string)
    { shortName := [], longName := "names".toList, defaultValue := some "x,y".toList } []
    ["program".toList, "--names=x,y".toList] "x,y".toList _ _ rfl rfl rfl rfl).mpr
    (.inr ⟨rfl, .array .string ⟨["x".toList, "y".toList]⟩, rfl, rfl⟩)

/-- With the default `1,2,3` the array of integers stays as it is, whatever the command line
says. -/
theorem values_parse_numbers_ne :
    let desc : OptionDescriptor :=
      { shortName := [], longName := "numbers".toList, defaultValue := some "1,2,3".toList }
    let a := (({ world := () } : Options Unit).addOption (fun _ => none) (.array .int) desc).2
    let b := ({ world := () } : Options Unit).addOptionBare (fun _ => none) (.array .int) desc
    let argv := ["program".toList, "--numbers=10,20,30".toList]
    a.firstText "numbers".toList (groups (argv.drop 1)) = some "10,20,30".toList ∧
      (a.parse argv).1 = .ok true ∧
      (a.parse argv).2.values.lookup "numbers".toList ≠
        (b.parse argv).2.values.lookup "numbers".toList := by
  decide

end Options

end Cli
