import LibUdp.Cli.Calls
import Mathlib.Data.Char
import Mathlib.Data.Finset.Sort
import Mathlib.Data.List.Lex

/-!
# The help text

`Options::print_help` collects the options from an `unordered_map`, whose order is not specified,
and sorts them by their long names with a sort that need not be stable.
-/

namespace Cli

open Text

section sortedKeys

variable {κ β : Type} [LinearOrder κ] {m : Finmap fun _ : κ => β} {key : κ}

/-- The keys of a table in ascending order. -/
def sortedKeys (m : Finmap fun _ : κ => β) : List κ := m.keys.sort (· ≤ ·)

lemma mem_sortedKeys : key ∈ sortedKeys m ↔ key ∈ m := by
  rw [sortedKeys, Finset.mem_sort, Finmap.mem_keys]

lemma pairwise_sortedKeys (m : Finmap fun _ : κ => β) : (sortedKeys m).Pairwise (· < ·) :=
  (Finset.sortedLT_sort m.keys).pairwise

end sortedKeys

/-- The columns of an option in the help, before they are padded. -/
def optionStr (desc : OptionDescriptor) : Text :=
  "  ".toList ++
    (if desc.shortName ≠ [] then "-".toList ++ desc.shortName ++ ", ".toList else "    ".toList) ++
    "--".toList ++ desc.longName ++
    (if desc.required then " (required)".toList else []) ++
    (match desc.defaultValue with
      | some text => " [default: ".toList ++ text ++ "]".toList
      | none      => []) ++
    (match desc.envVar with
      | some name => " [env: ".toList ++ name ++ "]".toList
      | none      => [])

/-- `std::format("{:<50} {}\n", ...)`, which pads by the width it estimates for a text. -/
def helpLine (width : Text → ℕ) (desc : OptionDescriptor) : Text :=
  let option := optionStr desc
  option ++ List.replicate (50 - width option) ' ' ++ ' ' :: desc.description ++ "\n".toList

/-- What `print_help` logs when the options are sorted. -/
def helpMessages (width : Text → ℕ) (programName : Text) (descriptors : List OptionDescriptor) :
    List Text :=
  ("Usage: ".toList ++ programName ++ " [OPTIONS] [ARGUMENTS]\n\n".toList) ::
    "Options:".toList :: descriptors.map (helpLine width)

/-- The call registers an option under the long name anew, or removes all of them. -/
def Call.Replaces {W : Type} (name : Text) : Call W → Prop
  | .register _ (.addOption _ desc) => desc.longName = name
  | .register _ _                   => False
  | .parse _                        => False
  | .clear                          => True

/-- The last registration of a long name since the last `clear` has this descriptor. -/
def Listed {W : Type} (cs : List (Call W)) (desc : OptionDescriptor) : Prop :=
  desc.longName ≠ [] ∧ ∃ earlier env T later,
    cs = earlier ++ .register env (.addOption T desc) :: later ∧
      ∀ c ∈ later, ¬ c.Replaces desc.longName

namespace Options

variable {W : Type}

/-- The first loop of `print_help`, with the order in which the iterator goes through the names. -/
def collect (o : Options W) (order : List Text) : List OptionDescriptor :=
  order.filterMap fun name => o.longNames.lookup name

/-- What `print_help` can log, in any order of the names and with any way to sort. -/
def PrintsHelp (o : Options W) (width : Text → ℕ) (programName : Text) (messages : List Text) :
    Prop :=
  ∃ order descriptors : List _, (order.Nodup ∧ ∀ name, name ∈ order ↔ name ∈ o.longNames) ∧
    descriptors.Perm (o.collect order) ∧
    descriptors.Pairwise (fun a b => ¬ b.longName < a.longName) ∧
    messages = helpMessages width programName descriptors

/-- The options as a sort of their names finds them. -/
def sortedDescriptors (o : Options W) : List OptionDescriptor :=
  o.collect (sortedKeys o.longNames)

/-- What `print_help` logs. -/
def printHelp (o : Options W) (width : Text → ℕ) (programName : Text) : List Text :=
  helpMessages width programName o.sortedDescriptors

/-! ### Descriptors of a store -/

variable {o : Options W} {desc : OptionDescriptor} {name : Text}

lemma longNames_addDescriptor (o : Options W) (desc : OptionDescriptor) (name : Text) :
    (o.addDescriptor desc).longNames.lookup name =
      if name ≠ [] ∧ name = desc.longName then some desc else o.longNames.lookup name := by
  by_cases hname : name = desc.longName
  · subst hname
    rw [addDescriptor]
    split_ifs <;> simp_all
  · rw [addDescriptor]
    split_ifs <;> simp_all [Finmap.lookup_insert_of_ne]

lemma longNames_addOption (o : Options W) (env : Text → Option Text) (T : OptionType)
    (desc : OptionDescriptor) (name : Text) :
    (o.addOption env T desc).2.longNames.lookup name =
      if name ≠ [] ∧ name = desc.longName then some desc else o.longNames.lookup name := by
  by_cases h : desc.shortName = [] ∧ desc.longName = []
  · have hne : ¬ (name ≠ [] ∧ name = desc.longName) := fun hname => hname.1 (hname.2.trans h.2)
    rw [addOption, if_pos h, if_neg hne]
  · obtain ⟨world, hworld⟩ := o.snd_addOption env T desc h
    rw [hworld, ← longNames_addDescriptor]

/-- The descriptor of a name after a call is the one the call registers, or the old one. -/
lemma longNames_call {c : Call W} (hne : name ≠ []) :
    (o.call c).longNames.lookup name = some desc ↔
      (desc.longName = name ∧ ∃ env T, c = .register env (.addOption T desc)) ∨
        o.longNames.lookup name = some desc ∧ ¬ c.Replaces name := by
  cases c with
  | register env r =>
    cases r with
    | addOption T desc' =>
      rw [call, register, longNames_addOption, Call.Replaces]
      split_ifs with h
      · obtain ⟨-, rfl⟩ := h
        constructor
        · rintro ⟨⟩
          exact .inl ⟨rfl, env, T, rfl⟩
        · rintro (⟨-, env', T', ⟨⟩⟩ | ⟨-, hkept⟩)
          · rfl
          · exact absurd rfl hkept
      · constructor
        · intro hold
          exact .inr ⟨hold, fun heq => h ⟨hne, heq.symm⟩⟩
        · rintro (⟨heq, env', T', ⟨⟩⟩ | ⟨hold, -⟩)
          · exact absurd ⟨hne, heq.symm⟩ h
          · exact hold
    | addValidation name' callback =>
      rw [call, register, addValidation]
      split_ifs <;> simp [Call.Replaces]
  | parse argv => simp [call, snd_parse, longNames_runGroups, Call.Replaces]
  | clear => simp [call, clear, Call.Replaces]

/-- The store after the calls of a program. -/
def callAll (o : Options W) (cs : List (Call W)) : Options W := cs.foldl call o

lemma callAll_concat (o : Options W) (cs : List (Call W)) (c : Call W) :
    o.callAll (cs ++ [c]) = (o.callAll cs).call c := by
  rw [callAll, List.foldl_append]
  rfl

lemma listed_concat {cs : List (Call W)} {c : Call W} : Listed (cs ++ [c]) desc ↔
    (desc.longName ≠ [] ∧ ∃ env T, c = .register env (.addOption T desc)) ∨
      Listed cs desc ∧ ¬ c.Replaces desc.longName := by
  constructor
  · rintro ⟨hne, earlier, env, T, later, heq, hlater⟩
    rcases List.eq_nil_or_concat' later with rfl | ⟨later, c', rfl⟩
    · obtain ⟨-, hc⟩ := List.append_inj' heq rfl
      exact .inl ⟨hne, env, T, List.singleton_injective hc⟩
    · rw [← List.cons_append, ← List.append_assoc] at heq
      obtain ⟨rfl, hc⟩ := List.append_inj' heq rfl
      cases hc
      refine .inr ⟨⟨hne, earlier, env, T, later, rfl, ?_⟩, hlater c (by simp)⟩
      exact fun c' hc' => hlater c' (List.mem_append_left [c] hc')
  · rintro (⟨hne, env, T, rfl⟩ | ⟨⟨hne, earlier, env, T, later, rfl, hlater⟩, hc⟩)
    · exact ⟨hne, cs, env, T, [], rfl, by simp⟩
    · refine ⟨hne, earlier, env, T, later ++ [c], by simp, ?_⟩
      intro c' hc'
      rcases List.mem_append.mp hc' with hc' | hc'
      · exact hlater c' hc'
      · exact List.mem_singleton.mp hc' ▸ hc

lemma keyed_callAll (allowUnrecognized : Bool) (world : W) (cs : List (Call W)) :
    (callAll { allowUnrecognized, world } cs).Keyed := by
  induction cs using List.reverseRecOn with
  | nil => exact .init allowUnrecognized world
  | append_singleton cs c ih => exact callAll_concat _ cs c ▸ ih.call c

lemma Keyed.longName_eq (h : o.Keyed) (hdesc : o.longNames.lookup name = some desc) :
    name = desc.longName ∧ desc.longName ≠ [] :=
  h name desc.longName (congrArg (Option.map OptionDescriptor.longName) hdesc)

lemma Keyed.lookup_longName (h : o.Keyed) (hdesc : ∃ name, o.longNames.lookup name = some desc) :
    o.longNames.lookup desc.longName = some desc := by
  obtain ⟨name, hdesc⟩ := hdesc
  exact (h.longName_eq hdesc).1 ▸ hdesc

/-- The store holds just the descriptors that are listed, each under its long name. -/
lemma longNames_callAll (allowUnrecognized : Bool) (world : W) (cs : List (Call W)) :
    (callAll { allowUnrecognized, world } cs).longNames.lookup name = some desc ↔
      Listed cs desc ∧ desc.longName = name := by
  by_cases hne : name = []
  · subst hne
    constructor
    · intro hdesc
      obtain ⟨heq, hne⟩ := (keyed_callAll allowUnrecognized world cs).longName_eq hdesc
      exact absurd heq.symm hne
    · rintro ⟨hlisted, heq⟩
      exact absurd heq hlisted.1
  · induction cs using List.reverseRecOn with
    | nil => simp [callAll, Listed]
    | append_singleton cs c ih =>
      rw [callAll_concat, longNames_call hne, ih, listed_concat]
      grind

/-! ### Sorted descriptors -/

lemma mem_collect_iff {order : List Text} (h : ∀ name, name ∈ order ↔ name ∈ o.longNames) :
    desc ∈ o.collect order ↔ ∃ name, o.longNames.lookup name = some desc := by
  rw [collect, List.mem_filterMap]
  constructor
  · rintro ⟨name, -, hdesc⟩
    exact ⟨name, hdesc⟩
  · rintro ⟨name, hdesc⟩
    exact ⟨name, (h name).mpr (Finmap.mem_of_lookup_eq_some hdesc), hdesc⟩

/-- The long names of the descriptors are in the order in which they are collected. -/
lemma Keyed.pairwise_collect (h : o.Keyed) {r : Text → Text → Prop} {order : List Text}
    (horder : order.Pairwise r) :
    (o.collect order).Pairwise fun a b => r a.longName b.longName := by
  rw [collect, List.pairwise_filterMap]
  refine horder.imp fun hr a ha b hb => ?_
  rw [← (h.longName_eq ha).1, ← (h.longName_eq hb).1]
  exact hr

lemma mem_sortedDescriptors_iff :
    desc ∈ o.sortedDescriptors ↔ ∃ name, o.longNames.lookup name = some desc :=
  mem_collect_iff fun _ => mem_sortedKeys

lemma Keyed.pairwise_sortedDescriptors (h : o.Keyed) :
    o.sortedDescriptors.Pairwise fun a b => a.longName < b.longName :=
  h.pairwise_collect (pairwise_sortedKeys o.longNames)

/-- The options of a store, in the order of the help. -/
lemma Keyed.sortedDescriptors_eq (h : o.Keyed) {descriptors : List OptionDescriptor}
    (hsorted : descriptors.Pairwise fun a b => a.longName < b.longName)
    (hmem : ∀ desc, desc ∈ descriptors ↔ o.longNames.lookup desc.longName = some desc) :
    o.sortedDescriptors = descriptors := by
  have hnodup : ∀ ds : List OptionDescriptor,
      ds.Pairwise (fun a b => a.longName < b.longName) → ds.Nodup :=
    fun ds hds => hds.imp fun hlt heq => hlt.ne (congrArg _ heq)
  refine List.Perm.eq_of_pairwise (fun a b _ _ hab hba => absurd hba (lt_asymm hab))
    h.pairwise_sortedDescriptors hsorted ?_
  refine (List.perm_ext_iff_of_nodup (hnodup _ h.pairwise_sortedDescriptors)
    (hnodup _ hsorted)).mpr fun desc => ?_
  rw [hmem, mem_sortedDescriptors_iff]
  exact ⟨h.lookup_longName, fun hdesc => ⟨_, hdesc⟩⟩

/-- All orders of the names and all ways to sort give the same messages. -/
lemma Keyed.printsHelp_iff_eq (h : o.Keyed) {width : Text → ℕ} {programName : Text}
    {messages : List Text} : o.PrintsHelp width programName messages ↔
      messages = o.printHelp width programName := by
  constructor
  · rintro ⟨order, descriptors, ⟨hnodup, horder⟩, hperm, hpairwise, rfl⟩
    have hdistinct : descriptors.Pairwise fun a b => a.longName ≠ b.longName :=
      hperm.symm.pairwise (h.pairwise_collect hnodup) Ne.symm
    have hsorted : descriptors.Pairwise fun a b => a.longName < b.longName :=
      (hpairwise.and hdistinct).imp fun hne => lt_of_le_of_ne (not_lt.mp hne.1) hne.2
    rw [printHelp, h.sortedDescriptors_eq hsorted fun desc => ?_]
    rw [hperm.mem_iff, mem_collect_iff horder]
    exact ⟨h.lookup_longName, fun hdesc => ⟨_, hdesc⟩⟩
  · rintro rfl
    have hnodup : (sortedKeys o.longNames).Nodup :=
      (pairwise_sortedKeys o.longNames).imp fun hlt => hlt.ne
    refine ⟨_, _, ⟨hnodup, fun _ => mem_sortedKeys⟩, .refl _, ?_, rfl⟩
    exact h.pairwise_sortedDescriptors.imp fun hlt => not_lt_of_gt hlt

/-- `parse` does not change the help. -/
lemma printHelp_parse (o : Options W) (argv : List Text) (width : Text → ℕ) (programName : Text) :
    (o.parse argv).2.printHelp width programName = o.printHelp width programName := by
  have hlong : (o.parse argv).2.longNames = o.longNames := by rw [snd_parse, longNames_runGroups]
  rw [printHelp, printHelp, sortedDescriptors, sortedDescriptors, collect, collect, hlong]

end Options

/-- After any calls, `print_help` logs one line for each option with a long name, as its last
registration describes it, in strictly ascending order of the long names. Neither the order of the
hash table nor the way the sort treats equal names shows. -/
theorem printsHelp_iff {W : Type} (allowUnrecognized : Bool) (world : W) (cs : List (Call W)) :
    ∃ descriptors : List OptionDescriptor,
      descriptors.Pairwise (fun a b => a.longName < b.longName) ∧
      (∀ desc, desc ∈ descriptors ↔ Listed cs desc) ∧
      ∀ width programName messages,
        (Options.callAll { allowUnrecognized, world } cs).PrintsHelp width programName messages ↔
          messages = helpMessages width programName descriptors := by
  have hkeyed := Options.keyed_callAll allowUnrecognized world cs
  refine ⟨_, hkeyed.pairwise_sortedDescriptors, fun desc => ?_,
    fun _ _ _ => hkeyed.printsHelp_iff_eq⟩
  rw [Options.mem_sortedDescriptors_iff]
  simp [Options.longNames_callAll]

end Cli
