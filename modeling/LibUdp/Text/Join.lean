import LibUdp.Text.Basic

/-!
# Texts put together

What a separated list and a trimmed text are, and how `getline` and the trimming take them apart.
-/

namespace Text

/-- A separator before every item but the first. -/
def join (sep : Char) : List Text → Text
  | []                   => []
  | [item]               => item
  | item :: next :: rest => item ++ sep :: join sep (next :: rest)

/-- Neither the first nor the last character is a blank. -/
def Trimmed (s : Text) : Prop :=
  (∀ c ∈ s.head?, isBlank c = false) ∧ ∀ c ∈ s.getLast?, isBlank c = false

/-- Nothing but blanks. -/
def Blank (s : Text) : Prop := ∀ c ∈ s, isBlank c = true

variable {sep : Char} {s t : Text}

/-! ### Items -/

lemma items_append_cons (h : sep ∉ s) (t : Text) :
    items sep (s ++ sep :: t) = s :: items sep t := by
  induction s with
  | nil => rw [List.nil_append, items, if_pos rfl]
  | cons c s ih =>
    rw [List.mem_cons, not_or] at h
    rw [List.cons_append, items, if_neg (Ne.symm h.1), ih h.2]

/-- `getline` gives the items back, except for an empty one at the end. -/
lemma items_join {xs : List Text} (h : ∀ item ∈ xs, sep ∉ item) :
    items sep (join sep xs) = if xs.getLast? = some [] then xs.dropLast else xs := by
  induction xs with
  | nil => rfl
  | cons item xs ih =>
    have hitem := h item List.mem_cons_self
    cases xs with
    | nil =>
      by_cases hempty : item = []
      · simp [hempty, join, items]
      · simp [hempty, join, items_of_not_mem hitem hempty]
    | cons next rest =>
      rw [join, items_append_cons hitem, ih fun i hi => h i (List.mem_cons_of_mem item hi),
        List.getLast?_cons_cons, List.dropLast_cons_cons]
      split_ifs <;> rfl

/-- Items without the separator come back just when the last one is not empty. -/
lemma items_join_eq_self_iff {xs : List Text} (h : ∀ item ∈ xs, sep ∉ item) :
    items sep (join sep xs) = xs ↔ xs.getLast? ≠ some [] := by
  rw [items_join h]
  split_ifs with hlast
  · have hne : xs ≠ [] := by
      rintro rfl
      cases hlast
    simp only [hlast, ne_eq, not_true_eq_false, iff_false]
    intro heq
    have hlen := congrArg List.length heq
    rw [List.length_dropLast] at hlen
    have hpos := List.length_pos_iff.mpr hne
    omega
  · simp [hlast]

/-- A text is cut at its last separator in one way only. -/
lemma append_sep_inj {u u' : Text} (hu : sep ∉ u) (hu' : sep ∉ u')
    (h : s ++ sep :: u = t ++ sep :: u') : s = t ∧ u = u' := by
  have hrev : u.reverse ++ sep :: s.reverse = u'.reverse ++ sep :: t.reverse := by
    simpa using congrArg List.reverse h
  have hbefore := congrArg (before sep) hrev
  have hafter := congrArg (after sep) hrev
  rw [before_append_cons (by simpa using hu), before_append_cons (by simpa using hu')] at hbefore
  rw [after_append_cons (by simpa using hu), after_append_cons (by simpa using hu')] at hafter
  exact ⟨List.reverse_injective hafter, List.reverse_injective hbefore⟩

/-! ### Splitting -/

lemma join_eq_intercalate (sep : Char) (xs : List Text) : join sep xs = [sep].intercalate xs := by
  fun_induction join sep xs with
  | case1 => rfl
  | case2 item => rw [List.intercalate_singleton]
  | case3 item next rest ih => rw [ih, List.intercalate_cons_cons, List.append_assoc]; rfl

lemma not_mem_of_mem_splitOn {item : Text} (h : item ∈ s.splitOn sep) : sep ∉ item := by
  induction s generalizing item with
  | nil =>
    rw [List.splitOn_nil, List.mem_singleton] at h
    rw [h]
    exact List.not_mem_nil
  | cons c s ih =>
    rw [List.splitOn_cons_eq_if_modifyHead] at h
    split_ifs at h with hc
    · rcases List.mem_cons.mp h with rfl | h
      · exact List.not_mem_nil
      · exact ih h
    · obtain ⟨first, rest, hsplit⟩ := List.exists_cons_of_ne_nil (List.splitOn_ne_nil sep s)
      rw [hsplit, List.modifyHead_cons] at h
      rw [hsplit] at ih
      rcases List.mem_cons.mp h with rfl | h
      · rw [List.mem_cons, not_or]
        exact ⟨fun heq => hc (beq_iff_eq.mpr heq.symm), ih List.mem_cons_self⟩
      · exact ih (List.mem_cons_of_mem first h)

/-- `getline` sees the pieces between the separators, except for an empty one at the end. -/
lemma items_eq_splitOn (sep : Char) (s : Text) :
    items sep s =
      if (s.splitOn sep).getLast? = some [] then (s.splitOn sep).dropLast else s.splitOn sep := by
  have hjoin : join sep (s.splitOn sep) = s := by
    rw [join_eq_intercalate, List.intercalate_splitOn]
  conv_lhs => rw [← hjoin]
  exact items_join fun item => not_mem_of_mem_splitOn

lemma items_prefix_splitOn (sep : Char) (s : Text) : items sep s <+: s.splitOn sep := by
  rw [items_eq_splitOn]
  split_ifs
  · exact List.dropLast_prefix _
  · exact List.prefix_rfl

lemma not_mem_items {item : Text} (h : item ∈ items sep s) : sep ∉ item :=
  not_mem_of_mem_splitOn ((items_prefix_splitOn sep s).mem h)

/-- The piece that `getline` leaves out is empty. -/
lemma filterMap_items {α : Type} {f : Text → Option α} (h : f [] = none) (sep : Char) (s : Text) :
    (items sep s).filterMap f = (s.splitOn sep).filterMap f := by
  rw [items_eq_splitOn]
  split_ifs with hlast
  · conv_rhs => rw [← List.dropLast_append_getLast? [] hlast]
    rw [List.filterMap_append, List.filterMap_cons_none h, List.filterMap_nil, List.append_nil]
  · rfl

lemma splitOn_join {xs : List Text} (h : ∀ item ∈ xs, sep ∉ item) (hne : xs ≠ []) :
    (join sep xs).splitOn sep = xs := by
  rw [join_eq_intercalate, List.splitOn_intercalate sep h hne]

/-! ### Trimming -/

lemma mem_of_mem_trim {c : Char} (h : c ∈ trim s) : c ∈ s :=
  (List.dropWhile_sublist isBlank).mem ((List.rdropWhile_prefix isBlank _).mem h)

lemma trimmed_trim (s : Text) : Trimmed (trim s) := by
  have hprefix : trim s <+: s.dropWhile isBlank := List.rdropWhile_prefix isBlank _
  constructor
  · intro c hc
    have hhead : (s.dropWhile isBlank).head? = some c := by
      obtain ⟨rest, hrest⟩ := hprefix
      rw [← hrest, List.head?_append, hc, Option.some_or]
    simpa [hhead] using List.head?_dropWhile_not isBlank s
  · intro c hc
    obtain ⟨hne, rfl⟩ := List.mem_getLast?_eq_getLast hc
    exact Bool.eq_false_iff.mpr (List.rdropWhile_last_not isBlank (s.dropWhile isBlank) hne)

lemma trim_eq_self_iff : trim s = s ↔ Trimmed s := by
  constructor
  · intro h
    exact h ▸ trimmed_trim s
  · rintro ⟨hhead, hlast⟩
    have hdrop : s.dropWhile isBlank = s := by
      cases s with
      | nil => rfl
      | cons c s => rw [List.dropWhile_cons, hhead c rfl, if_neg Bool.false_ne_true]
    rw [trim, hdrop, List.rdropWhile_eq_self_iff]
    intro hne
    rw [hlast _ (List.getLast?_eq_some_getLast hne)]
    exact Bool.false_ne_true

lemma not_mem_of_blank {c : Char} (h : Blank s) (hc : isBlank c = false) : c ∉ s := by
  intro hmem
  rw [h c hmem] at hc
  cases hc

lemma rdropWhile_append_of_blank (s : Text) {r : Text} (hr : Blank r) :
    (s ++ r).rdropWhile isBlank = s.rdropWhile isBlank := by
  rw [List.rdropWhile, List.rdropWhile, List.reverse_append, List.dropWhile_append_of_pos]
  intro c hc
  exact hr c (List.mem_reverse.mp hc)

/-- Blanks at the ends are trimmed away. -/
lemma trim_append {l r : Text} (hl : Blank l) (hr : Blank r) (s : Text) :
    trim (l ++ s ++ r) = trim s := by
  rw [trim, trim, List.append_assoc, List.dropWhile_append_of_pos hl, List.dropWhile_append]
  split_ifs with hs
  · have hnil : s.dropWhile isBlank = [] := List.isEmpty_iff.mp hs
    rw [List.dropWhile_eq_nil_iff.mpr hr, hnil]
  · exact rdropWhile_append_of_blank _ hr

end Text
