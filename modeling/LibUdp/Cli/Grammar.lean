import LibUdp.Cli.Options

/-!
# The grammar of the command line

The arguments after the program name are a sequence of groups: an option with its value in the
same token, an option with its value in the next token, an option alone, or a positional
argument. `Splits args gs` says that `args` is made of the groups `gs`, from left to right.

The main result is `parse_eq_true_iff`: the split exists and is unique, and `parse` is the fold
of `handleOption` over its option groups, followed by the check for required options.
-/

namespace Cli

open Text

/-! ### Groups -/

inductive Group where
  /-- `--name=value` -/
  | assigned (name value : Text)
  /-- `--name value` -/
  | long (name value : Text)
  /-- `-name value` -/
  | short (name value : Text)
  /-- `--name` without a value -/
  | longAlone (name : Text)
  /-- `-name` without a value -/
  | shortAlone (name : Text)
  | positional (arg : Text)
  deriving DecidableEq

namespace Group

/-- The arguments a group is written with. -/
def tokens : Group → List Text
  | assigned name value => ['-' :: '-' :: (name ++ '=' :: value)]
  | long name value     => ['-' :: '-' :: name, value]
  | short name value    => ['-' :: name, value]
  | longAlone name      => ['-' :: '-' :: name]
  | shortAlone name     => ['-' :: name]
  | positional arg      => [arg]

/-- The arguments `handle_option` gets for a group: name, value, and whether the name is short. -/
def option? : Group → Option (Text × Text × Bool)
  | assigned name value | long name value => some (name, value, false)
  | short name value => some (name, value, true)
  | longAlone name   => some (name, "true".toList, false)
  | shortAlone name  => some (name, "true".toList, true)
  | positional _     => none

def positional? : Group → Option Text
  | positional arg => some arg
  | _              => none

end Group

def optionGroups (gs : List Group) : List (Text × Text × Bool) := gs.filterMap Group.option?

def positionals (gs : List Group) : List Text := gs.filterMap Group.positional?

/-- There is no next argument, or it starts with `-`. -/
def NoValueNext (rest : List Text) : Prop := ∀ next ∈ rest.head?, Options.isOption next = true

/-- The arguments are the given groups, read from left to right. A value in a token of its own
does not start with `-`, and an option stands alone only when no such token follows. -/
inductive Splits : List Text → List Group → Prop where
  | nil : Splits [] []
  | assigned {name value : Text} {rest : List Text} {gs : List Group} (hname : '=' ∉ name)
      (h : Splits rest gs) :
      Splits (('-' :: '-' :: (name ++ '=' :: value)) :: rest) (.assigned name value :: gs)
  | long {name value : Text} {rest : List Text} {gs : List Group} (hname : '=' ∉ name)
      (hvalue : Options.isOption value = false) (h : Splits rest gs) :
      Splits (('-' :: '-' :: name) :: value :: rest) (.long name value :: gs)
  | short {name value : Text} {rest : List Text} {gs : List Group} (hne : name ≠ [])
      (hname : name.head? ≠ some '-') (hvalue : Options.isOption value = false)
      (h : Splits rest gs) :
      Splits (('-' :: name) :: value :: rest) (.short name value :: gs)
  | longAlone {name : Text} {rest : List Text} {gs : List Group} (hname : '=' ∉ name)
      (hnext : NoValueNext rest) (h : Splits rest gs) :
      Splits (('-' :: '-' :: name) :: rest) (.longAlone name :: gs)
  | shortAlone {name : Text} {rest : List Text} {gs : List Group} (hne : name ≠ [])
      (hname : name.head? ≠ some '-') (hnext : NoValueNext rest) (h : Splits rest gs) :
      Splits (('-' :: name) :: rest) (.shortAlone name :: gs)
  | positional {arg : Text} {rest : List Text} {gs : List Group}
      (harg : Options.isOption arg = false ∨ arg = ['-']) (h : Splits rest gs) :
      Splits (arg :: rest) (.positional arg :: gs)

/-- No argument is lost or duplicated: the groups are written with exactly the arguments. -/
lemma Splits.flatMap_tokens {args : List Text} {gs : List Group} (h : Splits args gs) :
    gs.flatMap Group.tokens = args := by
  induction h with
  | nil => rfl
  | _ => simp_all [Group.tokens]

/-! ### The split -/

/-- The split computed by recursion on the arguments. -/
def groups : List Text → List Group
  | [] => []
  | arg :: rest =>
    if "--".toList.isPrefixOf arg then
      let name := arg.drop 2
      if '=' ∈ name then .assigned (before '=' name) (after '=' name) :: groups rest
      else match rest with
        | value :: rest' =>
          if !Options.isOption value then .long name value :: groups rest'
          else .longAlone name :: groups (value :: rest')
        | [] => .longAlone name :: groups []
    else if Options.isOption arg ∧ 1 < arg.length then
      let name := arg.drop 1
      match rest with
      | value :: rest' =>
        if !Options.isOption value then .short name value :: groups rest'
        else .shortAlone name :: groups (value :: rest')
      | [] => .shortAlone name :: groups []
    else .positional arg :: groups rest

lemma eq_of_isPrefixOf {arg : Text} (h : "--".toList.isPrefixOf arg = true) :
    arg = '-' :: '-' :: arg.drop 2 := by
  obtain ⟨name, rfl⟩ := List.isPrefixOf_iff_prefix.mp h
  rfl

lemma isPrefixOf_cons (name : Text) : "--".toList.isPrefixOf ('-' :: '-' :: name) = true := by
  simp [List.isPrefixOf]

lemma not_isPrefixOf_cons {name : Text} (h : name.head? ≠ some '-') :
    "--".toList.isPrefixOf ('-' :: name) = false := by
  cases name with
  | nil => rfl
  | cons c name =>
    have hc : '-' ≠ c := fun heq => h (by simp [← heq])
    simp [List.isPrefixOf, hc]

lemma eq_of_isOption {arg : Text} (h : Options.isOption arg = true) : arg = '-' :: arg.drop 1 := by
  cases arg with
  | nil => simp [Options.isOption] at h
  | cons c arg => simpa [Options.isOption] using h

lemma head?_drop_ne {arg : Text} (hlong : ¬ "--".toList.isPrefixOf arg = true)
    (h : Options.isOption arg = true) : (arg.drop 1).head? ≠ some '-' := by
  intro hhead
  apply hlong
  rw [eq_of_isOption h]
  obtain ⟨name, hname⟩ := List.head?_eq_some_iff.mp hhead
  rw [hname]
  exact isPrefixOf_cons name

/-- The computed split follows the grammar. -/
lemma splits_groups (args : List Text) : Splits args (groups args) := by
  fun_induction groups args with
  | case1 => exact .nil
  | case2 arg rest hlong name heq ih =>
    have h : Splits (('-' :: '-' :: (before '=' name ++ '=' :: after '=' name)) :: rest)
        (.assigned (before '=' name) (after '=' name) :: groups rest) :=
      .assigned (not_mem_before '=' name) ih
    rwa [before_append_after heq, ← eq_of_isPrefixOf hlong] at h
  | case3 arg hlong name heq value rest' hvalue ih =>
    rw [eq_of_isPrefixOf hlong]
    exact .long heq (by simpa using hvalue) ih
  | case4 arg hlong name heq value rest' hvalue ih =>
    rw [eq_of_isPrefixOf hlong]
    exact .longAlone heq (by simpa [NoValueNext] using hvalue) ih
  | case5 arg hlong name heq ih =>
    rw [eq_of_isPrefixOf hlong]
    exact .longAlone heq (by simp [NoValueNext]) ih
  | case6 arg hlong hshort name value rest' hvalue ih =>
    rw [eq_of_isOption hshort.1]
    exact .short (List.ne_nil_of_length_pos (by simp; omega)) (head?_drop_ne hlong hshort.1)
      (by simpa using hvalue) ih
  | case7 arg hlong hshort name value rest' hvalue ih =>
    rw [eq_of_isOption hshort.1]
    exact .shortAlone (List.ne_nil_of_length_pos (by simp; omega))
      (head?_drop_ne hlong hshort.1) (by simpa [NoValueNext] using hvalue) ih
  | case8 arg hlong hshort name ih =>
    rw [eq_of_isOption hshort.1]
    exact .shortAlone (List.ne_nil_of_length_pos (by simp; omega))
      (head?_drop_ne hlong hshort.1) (by simp [NoValueNext]) ih
  | case9 arg rest hlong hshort ih =>
    refine .positional ?_ ih
    by_cases h : Options.isOption arg = true
    · right
      have hlen : (arg.drop 1).length = 0 := by
        simp only [not_and, not_lt] at hshort
        have := hshort h
        simp
        omega
      rw [eq_of_isOption h, List.length_eq_zero_iff.mp hlen]
    · left
      simpa using h

/-- The grammar leaves no choice: every split is the computed one. -/
lemma Splits.eq_groups {args : List Text} {gs : List Group} (h : Splits args gs) :
    groups args = gs := by
  induction h with
  | nil => rfl
  | @assigned name value rest gs hname h ih =>
    have heq : '=' ∈ name ++ '=' :: value := by simp
    rw [groups, if_pos (isPrefixOf_cons _)]
    simp only [List.drop_succ_cons, List.drop_zero, if_pos heq, before_append_cons hname,
      after_append_cons hname, ih]
  | @long name value rest gs hname hvalue h ih =>
    rw [groups, if_pos (isPrefixOf_cons _)]
    simp [hname, hvalue, ih]
  | @longAlone name rest gs hname hnext h ih =>
    rw [groups, if_pos (isPrefixOf_cons _)]
    cases rest with
    | nil => simp [hname, ih]
    | cons next rest =>
      have hopt : Options.isOption next = true := hnext next rfl
      simp [hname, hopt, ih]
  | @short name value rest gs hne hname hvalue h ih =>
    have hlen : 0 < name.length := List.length_pos_iff.mpr hne
    rw [groups, not_isPrefixOf_cons hname]
    simp [Options.isOption, hlen, ih] at hvalue ⊢
    simp [hvalue]
  | @shortAlone name rest gs hne hname hnext h ih =>
    have hlen : 0 < name.length := List.length_pos_iff.mpr hne
    rw [groups, not_isPrefixOf_cons hname]
    cases rest with
    | nil => simp [Options.isOption, hlen, ih]
    | cons next rest =>
      have hopt : Options.isOption next = true := hnext next rfl
      simp only [Options.isOption, decide_eq_true_eq] at hopt
      simp [Options.isOption, hlen, hopt, ih]
  | @positional arg rest gs harg h ih =>
    rcases harg with harg | rfl
    · have hlong : ¬ "--".toList.isPrefixOf arg = true := by
        intro h
        rw [eq_of_isPrefixOf h] at harg
        simp [Options.isOption] at harg
      rw [groups, if_neg hlong, if_neg (by simp [harg]), ih]
    · rw [groups, not_isPrefixOf_cons (by simp)]
      simp [ih]

/-- Every argument list splits into groups in exactly one way. -/
lemma existsUnique_splits (args : List Text) : ∃! gs, Splits args gs :=
  ⟨groups args, splits_groups args, fun _ h => h.eq_groups.symm⟩

/-! ### Running the groups -/

namespace Options

variable {W : Type}

/-- What the loop of `parse` does with one group. -/
def handleGroup (o : Options W) (g : Group) : Except Exn Bool × Options W :=
  match g.option? with
  | some (name, value, isShort) => o.handleOption name value isShort
  | none =>
    (.ok true, { o with positionalArgs := o.positionalArgs ++ g.positional?.toList })

def runGroups (o : Options W) : List Group → Except Exn Bool × Options W
  | []      => (.ok true, o)
  | g :: gs => andThen (o.handleGroup g) (runGroups · gs)

lemma runGroups_cons (o : Options W) (g : Group) (gs : List Group) :
    o.runGroups (g :: gs) = andThen (o.handleGroup g) (runGroups · gs) := rfl

lemma andThen_of_eq_true {p : Except Exn Bool × Options W} (h : p.1 = .ok true)
    (next : Options W → Except Exn Bool × Options W) : andThen p next = next p.2 := by
  obtain ⟨result, o⟩ := p
  obtain rfl : result = .ok true := h
  rfl

lemma andThen_of_ne_true {p : Except Exn Bool × Options W} (h : p.1 ≠ .ok true)
    (next : Options W → Except Exn Bool × Options W) : andThen p next = p := by
  obtain ⟨result, o⟩ := p
  cases result with
  | error e => rfl
  | ok b =>
    cases b with
    | false => rfl
    | true => exact absurd rfl h

lemma fst_andThen_eq_true_iff {p : Except Exn Bool × Options W}
    {next : Options W → Except Exn Bool × Options W} :
    (andThen p next).1 = .ok true ↔ p.1 = .ok true ∧ (next p.2).1 = .ok true := by
  by_cases h : p.1 = .ok true
  · rw [andThen_of_eq_true h]
    exact (and_iff_right h).symm
  · rw [andThen_of_ne_true h]
    exact iff_of_false h fun hp => h hp.1

lemma andThen_congr {result : Except Exn Bool × Options W}
    {next next' : Options W → Except Exn Bool × Options W} (h : ∀ o, next o = next' o) :
    andThen result next = andThen result next' := by
  rw [funext h]

lemma andThen_eq_true_iff {result : Except Exn Bool × Options W}
    {next : Options W → Except Exn Bool × Options W} {o' : Options W} :
    andThen result next = (.ok true, o') ↔
      ∃ o, result = (.ok true, o) ∧ next o = (.ok true, o') := by
  obtain ⟨result, o⟩ := result
  cases result with
  | error e => simp [andThen]
  | ok b => cases b <;> simp [andThen]

/-- The groups after the first ones run on what those leave behind. -/
lemma runGroups_append (o : Options W) (xs ys : List Group) :
    o.runGroups (xs ++ ys) = andThen (o.runGroups xs) (runGroups · ys) := by
  induction xs generalizing o with
  | nil => rfl
  | cons x xs ih =>
    rw [List.cons_append, runGroups_cons, runGroups_cons]
    by_cases h : (o.handleGroup x).1 = .ok true
    · rw [andThen_of_eq_true h, andThen_of_eq_true h, ih]
    · rw [andThen_of_ne_true h, andThen_of_ne_true h, andThen_of_ne_true h]

/-- The loop of `parse` is the run of the groups of its arguments. -/
lemma parseArgs_eq_runGroups (o : Options W) (args : List Text) :
    o.parseArgs args = o.runGroups (groups args) := by
  fun_induction groups args generalizing o with
  | case1 => rfl
  | case2 arg rest hlong name heq ih =>
    rw [parseArgs, if_pos hlong]
    simp only [name] at heq
    simp only [heq, if_true]
    exact andThen_congr ih
  | case3 arg hlong name heq value rest' hvalue ih =>
    rw [parseArgs, if_pos hlong]
    simp only [name] at heq
    simp only [heq, hvalue, if_false, if_true]
    exact andThen_congr ih
  | case4 arg hlong name heq value rest' hvalue ih =>
    rw [parseArgs, if_pos hlong]
    simp only [name] at heq
    simp only [heq, hvalue, if_false]
    exact andThen_congr ih
  | case5 arg hlong name heq ih =>
    rw [parseArgs, if_pos hlong]
    simp only [name] at heq
    simp only [heq, if_false]
    exact andThen_congr ih
  | case6 arg hlong hshort name value rest' hvalue ih =>
    rw [parseArgs, if_neg hlong, if_pos hshort]
    simp only [hvalue, if_true]
    exact andThen_congr ih
  | case7 arg hlong hshort name value rest' hvalue ih =>
    rw [parseArgs, if_neg hlong, if_pos hshort]
    simp only [hvalue]
    exact andThen_congr ih
  | case8 arg hlong hshort name ih =>
    rw [parseArgs, if_neg hlong, if_pos hshort]
    exact andThen_congr ih
  | case9 arg rest hlong hshort ih =>
    rw [parseArgs, if_neg hlong, if_neg hshort, ih]
    rfl

/-- `handle_option`, called once for each group in order, returns `true` every time. -/
inductive HandlesAll : Options W → List (Text × Text × Bool) → Options W → Prop where
  | nil (o : Options W) : HandlesAll o [] o
  | cons {o o₁ o₂ : Options W} {name value : Text} {isShort : Bool}
      {gs : List (Text × Text × Bool)} (h : o.handleOption name value isShort = (.ok true, o₁))
      (hs : HandlesAll o₁ gs o₂) : HandlesAll o ((name, value, isShort) :: gs) o₂

/-! `handleOption` neither reads nor writes the positional arguments. -/

def withPositional (o : Options W) (args : List Text) : Options W :=
  { o with positionalArgs := args }

lemma validateOption_withPositional (o : Options W) (args : List Text) (name value : Text) :
    (o.withPositional args).validateOption name value =
      ((o.validateOption name value).1, (o.validateOption name value).2.withPositional args) := by
  simp only [validateOption, withPositional]
  cases o.validators.lookup name <;> rfl

lemma storeValue_withPositional (o : Options W) (args : List Text) (name value : Text) :
    (o.withPositional args).storeValue name value =
      ((o.storeValue name value).1, (o.storeValue name value).2.withPositional args) := by
  have hval : (o.withPositional args).hasValue name = o.hasValue name := rfl
  rw [storeValue, storeValue, hval]
  cases o.hasValue name with
  | true => rfl
  | false => cases detectValue value <;> rfl

lemma handleOption_withPositional (o : Options W) (args : List Text) (name value : Text)
    (isShort : Bool) :
    (o.withPositional args).handleOption name value isShort =
      ((o.handleOption name value isShort).1,
        (o.handleOption name value isShort).2.withPositional args) := by
  have hnames : (o.withPositional args).names isShort = o.names isShort := rfl
  rw [handleOption, handleOption, hnames]
  cases (o.names isShort).lookup name with
  | none => rfl
  | some desc =>
    simp only [validateOption_withPositional, andThen]
    obtain ⟨result, o₁⟩ := o.validateOption desc.longName value
    cases result with
    | error e => rfl
    | ok b => cases b <;> simp [storeValue_withPositional]

lemma HandlesAll.withPositional {o o₁ : Options W} {gs : List (Text × Text × Bool)}
    (h : HandlesAll o gs o₁) (args : List Text) :
    HandlesAll (o.withPositional args) gs (o₁.withPositional args) := by
  induction h with
  | nil o => exact .nil _
  | cons h _ ih =>
    refine .cons ?_ ih
    rw [handleOption_withPositional, h]

lemma handleOption_positionalArgs {o o₁ : Options W} {name value : Text} {isShort : Bool}
    {result : Except Exn Bool} (h : o.handleOption name value isShort = (result, o₁)) :
    o₁.positionalArgs = o.positionalArgs := by
  have hself := handleOption_withPositional o o.positionalArgs name value isShort
  rw [h, show o.withPositional o.positionalArgs = o from rfl, h] at hself
  simp only [Prod.mk.injEq, true_and] at hself
  rw [hself]
  rfl

lemma HandlesAll.positionalArgs {o o₁ : Options W} {gs : List (Text × Text × Bool)}
    (h : HandlesAll o gs o₁) : o₁.positionalArgs = o.positionalArgs := by
  induction h with
  | nil o => rfl
  | cons h _ ih => rw [ih, handleOption_positionalArgs h]

/-- The loop succeeds when every option group is handled, and it then has appended exactly the
positional groups. -/
lemma runGroups_eq_true_iff {o o' : Options W} {gs : List Group} :
    o.runGroups gs = (.ok true, o') ↔ ∃ o₁, HandlesAll o (optionGroups gs) o₁ ∧
      o' = o₁.withPositional (o.positionalArgs ++ positionals gs) := by
  induction gs generalizing o with
  | nil =>
    simp only [runGroups, optionGroups, positionals, List.filterMap_nil, List.append_nil]
    constructor
    · rintro h
      cases h
      exact ⟨_, .nil _, rfl⟩
    · rintro ⟨o₁, h, rfl⟩
      cases h
      rfl
  | cons g gs ih =>
    rw [runGroups, andThen_eq_true_iff]
    cases hopt : g.option? with
    | some call =>
      obtain ⟨name, value, isShort⟩ := call
      have hpos : g.positional? = none := by cases g <;> simp_all [Group.option?, Group.positional?]
      simp only [handleGroup, hopt, optionGroups, positionals, List.filterMap_cons, hpos]
      constructor
      · rintro ⟨o₁, h₁, h⟩
        obtain ⟨o₂, h₂, rfl⟩ := ih.mp h
        rw [handleOption_positionalArgs h₁]
        exact ⟨o₂, .cons h₁ h₂, rfl⟩
      · rintro ⟨o₂, h, rfl⟩
        cases h with
        | cons h₁ h₂ =>
          refine ⟨_, h₁, ih.mpr ⟨o₂, h₂, ?_⟩⟩
          rw [handleOption_positionalArgs h₁]
          rfl
    | none =>
      obtain ⟨arg, rfl⟩ : ∃ arg, g = .positional arg := by
        cases g <;> simp_all [Group.option?]
      simp only [handleGroup, Group.option?, Group.positional?, Option.toList, optionGroups,
        positionals, List.filterMap_cons, Prod.mk.injEq, true_and, exists_eq_left']
      constructor
      · intro h
        obtain ⟨o₂, h₂, rfl⟩ := ih.mp h
        refine ⟨o₂.withPositional o.positionalArgs, h₂.withPositional o.positionalArgs, ?_⟩
        simp [withPositional, positionals]
      · rintro ⟨o₂, h, rfl⟩
        refine ih.mpr ⟨o₂.withPositional (o.positionalArgs ++ [arg]), h.withPositional _, ?_⟩
        simp [withPositional, positionals]

/-- `parse` implements the grammar: the arguments after the program name split into groups in
exactly one way, and `parse` gives `true` when every option group is handled in order and no
required option is left without a value. The positional arguments then have grown by the
positional groups. -/
theorem parse_eq_true_iff (o : Options W) (program : Text) (args : List Text) :
    (∃! gs, Splits args gs) ∧
      ∀ gs, Splits args gs → gs.flatMap Group.tokens = args ∧
        ∀ o', o.parse (program :: args) = (.ok true, o') ↔
          ∃ o₁, HandlesAll o (optionGroups gs) o₁ ∧ o₁.RequiredPresent ∧
            o' = { o₁ with positionalArgs := o.positionalArgs ++ positionals gs } := by
  refine ⟨existsUnique_splits args, fun gs h => ⟨h.flatMap_tokens, fun o' => ?_⟩⟩
  have hparse : o.parse (program :: args) = (.ok true, o') ↔
      o.runGroups gs = (.ok true, o') ∧ o'.RequiredPresent := by
    rw [parse, List.drop_succ_cons, List.drop_zero, parseArgs_eq_runGroups, h.eq_groups]
    obtain ⟨result, o₁⟩ := o.runGroups gs
    cases result with
    | error e => cases e <;> simp [Exn.isStd]
    | ok b =>
      cases b with
      | false => simp
      | true =>
        simp only [Prod.mk.injEq, Except.ok.injEq, decide_eq_true_eq]
        constructor
        · rintro ⟨hreq, rfl⟩
          exact ⟨⟨trivial, rfl⟩, hreq⟩
        · rintro ⟨⟨-, rfl⟩, hreq⟩
          exact ⟨hreq, rfl⟩
  rw [hparse, runGroups_eq_true_iff]
  constructor
  · rintro ⟨⟨o₁, h₁, rfl⟩, hreq⟩
    exact ⟨o₁, h₁, hreq, rfl⟩
  · rintro ⟨o₁, h₁, hreq, rfl⟩
    exact ⟨⟨o₁, h₁, rfl⟩, hreq⟩

end Options

end Cli
