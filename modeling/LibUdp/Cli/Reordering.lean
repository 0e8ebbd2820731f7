import LibUdp.Cli.Calls

/-!
# The order of the options

`parse` on two argument lists of `--name=value` tokens and positional arguments, where one is a
rearrangement of the other that keeps the tokens for each name, and the positional arguments, in
their order.
-/

namespace Cli

open Text Run

/-- The name and the value of a `--name=value` token. -/
def assignment? (arg : Text) : Option (Text × Text) :=
  if "--".toList.isPrefixOf arg ∧ '=' ∈ arg.drop 2 then
    some (before '=' (arg.drop 2), after '=' (arg.drop 2))
  else none

/-- The token is a `--name=value` token for the name. -/
def Assigns (name arg : Text) : Prop := (assignment? arg).map Prod.fst = some name

instance (name : Text) : DecidablePred (Assigns name) := fun arg =>
  inferInstanceAs (Decidable ((assignment? arg).map Prod.fst = some name))

/-- The arguments are the same, and those that matter to each other are in the same order. -/
structure Rearranged (args args' : List Text) : Prop where
  perm : args.Perm args'
  tokens : ∀ arg ∈ args, (assignment? arg).isSome ∨ Options.isOption arg = false
  assigning : ∀ name, args.filter (Assigns name ·) = args'.filter (Assigns name ·)
  positional : args.filter (!Options.isOption ·) = args'.filter (!Options.isOption ·)

lemma Rearranged.symm {args args' : List Text} (h : Rearranged args args') :
    Rearranged args' args where
  perm := h.perm.symm
  tokens arg harg := h.tokens arg (h.perm.mem_iff.mpr harg)
  assigning name := (h.assigning name).symm
  positional := h.positional.symm

/-- The group of one such argument. -/
def tokenGroup (arg : Text) : Group :=
  match assignment? arg with
  | some (name, value) => .assigned name value
  | none               => .positional arg

lemma groups_eq_map {args : List Text}
    (h : ∀ arg ∈ args, (assignment? arg).isSome ∨ Options.isOption arg = false) :
    groups args = args.map tokenGroup := by
  induction args with
  | nil => rfl
  | cons arg args ih =>
    rw [List.forall_mem_cons] at h
    rw [groups, ih h.2, List.map_cons, tokenGroup, assignment?]
    by_cases hlong : "--".toList.isPrefixOf arg = true
    · have heq : '=' ∈ arg.drop 2 := by
        rcases h.1 with hsome | hoption
        · by_contra hne
          simp [assignment?, hne] at hsome
        · rw [eq_of_isPrefixOf hlong] at hoption
          simp [Options.isOption] at hoption
      rw [if_pos hlong, if_pos heq, if_pos ⟨hlong, heq⟩]
    · have hoption : Options.isOption arg = false := by
        rcases h.1 with hsome | hoption
        · rw [assignment?, if_neg fun h => hlong h.1] at hsome
          cases hsome
        · exact hoption
      rw [if_neg hlong, if_neg (by simp [hoption]), if_neg fun h => hlong h.1]

lemma assignment?_of_not_isOption {arg : Text} (h : Options.isOption arg = false) :
    assignment? arg = none := by
  rw [assignment?, if_neg]
  rintro ⟨hlong, -⟩
  rw [eq_of_isPrefixOf hlong] at h
  simp [Options.isOption] at h

namespace Options

variable {W : Type} {o : Options W} {args args' : List Text}

/-! ### Texts and positional arguments of such a list -/

lemma texts_map_tokenGroup (hkeyed : o.Keyed) (n : Text) (args : List Text) :
    o.texts n (args.map tokenGroup) = o.texts n ((args.filter (Assigns n ·)).map tokenGroup) := by
  induction args with
  | nil => rfl
  | cons arg args ih =>
    rw [List.map_cons, texts_cons, ih, List.filter_cons]
    by_cases harg : Assigns n arg
    · rw [if_pos (by simpa using harg), List.map_cons, texts_cons]
    · -- a token for another name has no text for this option
      have hnone : o.firstText n [tokenGroup arg] = none := by
        apply firstText_of_not_supplies
        rintro ⟨name, value, isShort, hopt, hname⟩
        rw [tokenGroup] at hopt
        cases hassign : assignment? arg with
        | none => simp [hassign, Group.option?] at hopt
        | some pair =>
          simp only [hassign, Group.option?, Option.some.injEq, Prod.mk.injEq] at hopt
          obtain ⟨hfst, -, rfl⟩ := hopt
          have hn := (hkeyed name n hname).1
          exact harg (by rw [Assigns, hassign, Option.map_some, hfst, hn])
      rw [if_neg (by simpa using harg), hnone]
      rfl

lemma positionals_map_tokenGroup
    (h : ∀ arg ∈ args, (assignment? arg).isSome ∨ isOption arg = false) :
    positionals (args.map tokenGroup) = args.filter (!isOption ·) := by
  induction args with
  | nil => rfl
  | cons arg args ih =>
    rw [List.forall_mem_cons] at h
    rw [List.map_cons, positionals, List.filterMap_cons, ← positionals, ih h.2, List.filter_cons]
    by_cases hoption : isOption arg = true
    · have hsome : (assignment? arg).isSome := h.1.resolve_right (by simp [hoption])
      obtain ⟨pair, hpair⟩ := Option.isSome_iff_exists.mp hsome
      simp [tokenGroup, hpair, Group.positional?, hoption]
    · rw [Bool.not_eq_true] at hoption
      simp [tokenGroup, assignment?_of_not_isOption hoption, Group.positional?, hoption]

/-! ### Two runs -/

lemma texts_of_rearranged (hkeyed : o.Keyed) (h : Rearranged args args') (n : Text) :
    o.texts n (groups args) = o.texts n (groups args') := by
  rw [groups_eq_map h.tokens, groups_eq_map h.symm.tokens, texts_map_tokenGroup hkeyed,
    h.assigning, ← texts_map_tokenGroup hkeyed]

lemma firstText_of_rearranged (hkeyed : o.Keyed) (h : Rearranged args args') (n : Text) :
    o.firstText n (groups args) = o.firstText n (groups args') := by
  rw [← head?_texts, ← head?_texts, texts_of_rearranged hkeyed h]

lemma runGroups_of_rearranged (hkeyed : o.Keyed) (hpure : o.HasPure) (h : Rearranged args args')
    (htrue : (o.runGroups (groups args)).1 = .ok true) :
    (o.runGroups (groups args')).1 = .ok true := by
  rw [hpure.runGroups_eq_true_iff] at htrue ⊢
  obtain ⟨hunknown, hoptions⟩ := htrue
  constructor
  · intro g hg
    apply hunknown g
    rw [groups_eq_map h.symm.tokens] at hg
    rw [groups_eq_map h.tokens]
    exact (h.perm.map tokenGroup).mem_iff.mpr hg
  · intro n
    rw [← texts_of_rearranged hkeyed h, ← firstText_of_rearranged hkeyed h]
    exact hoptions n

lemma values_of_rearranged (hkeyed : o.Keyed) (h : Rearranged args args')
    (htrue : (o.runGroups (groups args)).1 = .ok true)
    (htrue' : (o.runGroups (groups args')).1 = .ok true) :
    (o.runGroups (groups args)).2.values = (o.runGroups (groups args')).2.values := by
  apply Finmap.ext_lookup
  intro n
  rw [lookup_values_runGroups htrue, lookup_values_runGroups htrue',
    firstText_of_rearranged hkeyed h]

lemma positionalArgs_of_rearranged (h : Rearranged args args')
    (htrue : (o.runGroups (groups args)).1 = .ok true)
    (htrue' : (o.runGroups (groups args')).1 = .ok true) :
    (o.runGroups (groups args)).2.positionalArgs =
      (o.runGroups (groups args')).2.positionalArgs := by
  rw [positionalArgs_runGroups htrue, positionalArgs_runGroups htrue', groups_eq_map h.tokens,
    groups_eq_map h.symm.tokens, positionals_map_tokenGroup h.tokens,
    positionals_map_tokenGroup h.symm.tokens, h.positional]

lemma RequiredPresent.congr {o₁ o₂ : Options W} (h : o₁.RequiredPresent)
    (hnames : o₂.longNames = o₁.longNames) (hvalues : o₁.values = o₂.values) :
    o₂.RequiredPresent := by
  intro name hname desc hdesc hrequired
  rw [hasValue, ← hvalues]
  rw [hnames] at hname hdesc
  exact h name hname desc hdesc hrequired

/-- A list that is parsed can be rearranged. -/
lemma parse_of_rearranged (hkeyed : o.Keyed) (hpure : o.HasPure) (h : Rearranged args args')
    (program : Text) (htrue : (o.parse (program :: args)).1 = .ok true) :
    (o.parse (program :: args')).1 = .ok true ∧
      (o.parse (program :: args)).2.values = (o.parse (program :: args')).2.values ∧
      (o.parse (program :: args)).2.positionalArgs =
        (o.parse (program :: args')).2.positionalArgs := by
  rw [fst_parse_eq_true_iff] at htrue ⊢
  rw [snd_parse, snd_parse]
  obtain ⟨hrun, hrequired⟩ := htrue
  have hrun' := runGroups_of_rearranged hkeyed hpure h hrun
  have hvalues := values_of_rearranged hkeyed h hrun hrun'
  refine ⟨⟨hrun', hrequired.congr ?_ hvalues⟩, hvalues, positionalArgs_of_rearranged h hrun hrun'⟩
  rw [longNames_runGroups, longNames_runGroups]

/-- In every state that calls can bring the store to, with pure validators, `parse` gives the same
boolean on a list and on a rearrangement of it, and with `true` the same values and positional
arguments. -/
theorem parse_rearranged {allowUnrecognized : Bool} {world : W} {cs : List (Call W)}
    (hreached : exec step { allowUnrecognized, world } cs = some o) (hpure : o.HasPure)
    (h : Rearranged args args') (program : Text) :
    (∃ b, (o.parse (program :: args)).1 = .ok b ∧ (o.parse (program :: args')).1 = .ok b) ∧
      ((o.parse (program :: args)).1 = .ok true →
        (o.parse (program :: args)).2.values = (o.parse (program :: args')).2.values ∧
        (o.parse (program :: args)).2.positionalArgs =
          (o.parse (program :: args')).2.positionalArgs) := by
  have hkeyed : o.Keyed := Keyed.visits ⟨cs, List.prefix_rfl, hreached⟩ (.init _ _)
  constructor
  · obtain ⟨b, hb⟩ := hpure.exists_parse_eq (program :: args)
    obtain ⟨b', hb'⟩ := hpure.exists_parse_eq (program :: args')
    refine ⟨b, hb, ?_⟩
    cases b with
    | true => exact (parse_of_rearranged hkeyed hpure h program hb).1
    | false =>
      cases b' with
      | false => exact hb'
      | true =>
        have htrue := (parse_of_rearranged hkeyed hpure h.symm program hb').1
        rw [hb] at htrue
        cases htrue
  · intro htrue
    exact (parse_of_rearranged hkeyed hpure h program htrue).2

lemma rearranged_file : Rearranged ["--size=3".toList, "file".toList]
    ["file".toList, "--size=3".toList] := by
  have hfile : assignment? "file".toList = none := rfl
  refine ⟨by decide, by decide, fun name => ?_, rfl⟩
  simp only [List.filter_cons, Assigns, hfile, Option.map_none, decide_false, reduceCtorEq]
  rfl

theorem parse_rearranged_file :
    ∃ o : Options Unit, exec step { world := () } [.register (fun _ => none)
        (.addOption (.scalar .int) { shortName := [], longName := "size".toList })] = some o ∧
      (∃ b, (o.parse ("program".toList :: ["--size=3".toList, "file".toList])).1 = .ok b ∧
        (o.parse ("program".toList :: ["file".toList, "--size=3".toList])).1 = .ok b) ∧
      ((o.parse ("program".toList :: ["--size=3".toList, "file".toList])).1 = .ok true →
        (o.parse ("program".toList :: ["--size=3".toList, "file".toList])).2.values =
          (o.parse ("program".toList :: ["file".toList, "--size=3".toList])).2.values ∧
        (o.parse ("program".toList :: ["--size=3".toList, "file".toList])).2.positionalArgs =
          (o.parse ("program".toList :: ["file".toList, "--size=3".toList])).2.positionalArgs) := by
  have hreached : exec step ({ world := () } : Options Unit) [.register (fun _ => none)
      (.addOption (.scalar .int) { shortName := [], longName := "size".toList })] =
      some (Options.call { world := () } (.register (fun _ => none)
        (.addOption (.scalar .int) { shortName := [], longName := "size".toList }))) := rfl
  have hpure : HasPure (Options.call ({ world := () } : Options Unit) (.register (fun _ => none)
      (.addOption (.scalar .int) { shortName := [], longName := "size".toList }))) := by
    intro n callback hcallback
    cases hcallback
  exact ⟨_, hreached, parse_rearranged hreached hpure rearranged_file "program".toList⟩

end Options

end Cli
