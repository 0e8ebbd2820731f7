import LibUdp.Cli.Calls

/-!
# The spellings of an option

An option with its value is written as `--name=value`, as `--name value` or as `-s value`. In any
place among the arguments the three are one group each, and `handle_option` treats them alike.
-/

namespace Cli

open Text

/-! ### Groups in a context -/

lemma NoValueNext.append {xs ys : List Text} (h : NoValueNext xs) (h' : NoValueNext ys) :
    NoValueNext (xs ++ ys) := by
  cases xs with
  | nil => exact h'
  | cons x xs => exact h

/-- When no value can come first in the second list, the two lists are split one by one. -/
lemma Splits.append {xs ys : List Text} {gs gs' : List Group} (h : Splits xs gs)
    (h' : Splits ys gs') (hnext : NoValueNext ys) : Splits (xs ++ ys) (gs ++ gs') := by
  induction h with
  | nil => exact h'
  | assigned hname _ ih => exact .assigned hname ih
  | long hname hvalue _ ih => exact .long hname hvalue ih
  | short hne hname hvalue _ ih => exact .short hne hname hvalue ih
  | longAlone hname hnext' _ ih => exact .longAlone hname (hnext'.append hnext) ih
  | shortAlone hne hname hnext' _ ih => exact .shortAlone hne hname (hnext'.append hnext) ih
  | positional harg _ ih => exact .positional harg ih

/-- The group of some tokens comes between those of the other arguments. -/
lemma groups_context {tokens post : List Text} {g : Group}
    (h : Splits (tokens ++ post) (g :: groups post)) (hnext : NoValueNext (tokens ++ post))
    (pre : List Text) : groups (pre ++ tokens ++ post) = groups pre ++ g :: groups post := by
  rw [List.append_assoc]
  exact ((splits_groups pre).append h hnext).eq_groups

namespace Options

variable {W : Type} {o : Options W} {n s v : Text}

lemma parse_congr {args args' : List Text}
    (h : o.runGroups (groups args) = o.runGroups (groups args')) (program : Text) :
    o.parse (program :: args) = o.parse (program :: args') := by
  rw [parse, parse, List.drop_one, List.drop_one, List.tail_cons, List.tail_cons,
    parseArgs_eq_runGroups, parseArgs_eq_runGroups, h]

/-- Groups that are handled alike after the first ones make no difference. -/
lemma runGroups_congr {xs ys : List Group} {g g' : Group}
    (h : (o.runGroups xs).2.handleGroup g = (o.runGroups xs).2.handleGroup g') :
    o.runGroups (xs ++ g :: ys) = o.runGroups (xs ++ g' :: ys) := by
  rw [runGroups_append, runGroups_append]
  by_cases hxs : (o.runGroups xs).1 = .ok true
  · rw [andThen_of_eq_true hxs, andThen_of_eq_true hxs, runGroups_cons, runGroups_cons, h]
  · rw [andThen_of_ne_true hxs, andThen_of_ne_true hxs]

/-- Two names of one option are the same to `handle_option`. -/
lemma handleGroup_congr {g g' : Group} {name name' : Text} {isShort isShort' : Bool}
    (hg : g.option? = some (name, v, isShort)) (hg' : g'.option? = some (name', v, isShort'))
    (hname : o.longNameOf isShort name = o.longNameOf isShort' name') :
    o.handleGroup g = o.handleGroup g' := by
  rw [handleGroup, handleGroup, hg, hg']
  dsimp only
  rw [handleOption_eq, handleOption_eq, hname]

/-- In every state that calls can bring the store to, the three spellings of an option with a value
have the same effect, in any place among the arguments. -/
theorem parse_spellings {allowUnrecognized : Bool} {world : W} {cs : List (Call W)}
    (hreached : Run.exec step { allowUnrecognized, world } cs = some o)
    (hlong : (o.longNames.lookup n).isSome) (heq : '=' ∉ n)
    (hshort : ∃ desc, o.shortNames.lookup s = some desc ∧ desc.longName = n)
    (hdash : s.head? ≠ some '-') (hvalue : isOption v = false) (program : Text)
    (pre post : List Text) :
    o.parse (program :: (pre ++ ['-' :: '-' :: n, v] ++ post)) =
        o.parse (program :: (pre ++ ['-' :: '-' :: (n ++ '=' :: v)] ++ post)) ∧
      o.parse (program :: (pre ++ ['-' :: s, v] ++ post)) =
        o.parse (program :: (pre ++ ['-' :: '-' :: (n ++ '=' :: v)] ++ post)) := by
  have hvisits : Run.Visits step { allowUnrecognized, world } cs o :=
    ⟨cs, List.prefix_rfl, hreached⟩
  have hkeyed : o.Keyed := Keyed.visits hvisits (.init _ _)
  have hnamed : o.Named := Named.visits hvisits (.init _ _)
  have hlongName : o.longNameOf false n = some n := by
    obtain ⟨desc, hdesc⟩ := Option.isSome_iff_exists.mp hlong
    have hname : o.longNameOf false n = some desc.longName := congrArg _ hdesc
    rw [hname, ← (hkeyed n _ hname).1]
  have hshortName : o.longNameOf true s = some n := by
    obtain ⟨desc, hdesc, rfl⟩ := hshort
    exact congrArg _ hdesc
  have hne : s ≠ [] := by
    rintro rfl
    rw [hnamed true] at hshortName
    cases hshortName
  have hafter : ∀ isShort name, (o.runGroups (groups pre)).2.longNameOf isShort name =
      o.longNameOf isShort name := (Extends.runGroups o (groups pre)).longNameOf
  have hassigned : groups (pre ++ ['-' :: '-' :: (n ++ '=' :: v)] ++ post) =
      groups pre ++ .assigned n v :: groups post :=
    groups_context (.assigned heq (splits_groups post)) (by simp [NoValueNext, isOption]) pre
  constructor
  · have hlongs : groups (pre ++ ['-' :: '-' :: n, v] ++ post) =
        groups pre ++ .long n v :: groups post :=
      groups_context (.long heq hvalue (splits_groups post)) (by simp [NoValueNext, isOption]) pre
    apply parse_congr
    rw [hlongs, hassigned]
    apply runGroups_congr
    exact handleGroup_congr rfl rfl rfl
  · have hshorts : groups (pre ++ ['-' :: s, v] ++ post) =
        groups pre ++ .short s v :: groups post :=
      groups_context (.short hne hdash hvalue (splits_groups post))
        (by simp [NoValueNext, isOption]) pre
    apply parse_congr
    rw [hshorts, hassigned]
    apply runGroups_congr
    apply handleGroup_congr rfl rfl
    rw [hafter, hafter, hshortName, hlongName]

/-- The token before the option is one that looks for a value. -/
theorem parse_spellings_output :
    ∃ o : Options Unit, Run.exec step { world := () } [.register (fun _ => none)
        (.addOption (.scalar .string) { shortName := ['o'], longName := "output".toList })] =
          some o ∧
      o.parse ["program".toList, "--output".toList, "--output".toList, "a".toList, "b".toList] =
        o.parse ["program".toList, "--output".toList, "--output=a".toList, "b".toList] ∧
      o.parse ["program".toList, "--output".toList, "-o".toList, "a".toList, "b".toList] =
        o.parse ["program".toList, "--output".toList, "--output=a".toList, "b".toList] := by
  have hreached : Run.exec step ({ world := () } : Options Unit) [.register (fun _ => none)
      (.addOption (.scalar .string) { shortName := ['o'], longName := "output".toList })] =
      some (Options.call { world := () } (.register (fun _ => none)
        (.addOption (.scalar .string) { shortName := ['o'], longName := "output".toList }))) := rfl
  refine ⟨_, hreached, ?_⟩
  exact parse_spellings (n := "output".toList) (s := ['o']) (v := ['a']) hreached rfl (by decide)
    ⟨_, rfl, rfl⟩ (by decide) rfl "program".toList ["--output".toList] [['b']]

end Options

end Cli
