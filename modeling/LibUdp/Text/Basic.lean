import Mathlib.Data.List.DropRight
import Mathlib.Data.List.TakeWhile
import Mathlib.Data.Nat.Digits.Defs

/-!
# Texts

A text is the character sequence of a `std::string`. The operations here are the ones of the
C and C++ standard libraries that string handling is written with: character classes of the
"C" locale, `getline` loops, trimming, decimal printing.
-/

abbrev Text := List Char

namespace Text

/-- `isspace` in the "C" locale. -/
def isSpace (c : Char) : Bool :=
  c = ' ' || c = '\t' || c = '\n' || c = '\x0b' || c = '\x0c' || c = '\r'

/-- The blanks of `find_first_not_of(" \t")`. -/
def isBlank (c : Char) : Bool := c = ' ' || c = '\t'

/-- `std::transform` with `tolower`. -/
def toLower (s : Text) : Text := s.map Char.toLower

/-- Erase the blanks at both ends. -/
def trim (s : Text) : Text := (s.dropWhile isBlank).rdropWhile isBlank

/-- The text before the first `sep`, the whole text when there is none. -/
def before (sep : Char) (s : Text) : Text := s.takeWhile (· ≠ sep)

/-- The text after the first `sep`, empty when there is none. -/
def after (sep : Char) (s : Text) : Text := (s.dropWhile (· ≠ sep)).drop 1

/-- The text after the last `sep`, the whole text when there is none. -/
def afterLast (sep : Char) (s : Text) : Text := s.rtakeWhile (· ≠ sep)

/-- `std::to_string` of an unsigned number. -/
def decimal (n : ℕ) : Text :=
  if n = 0 then ['0'] else ((Nat.digits 10 n).map Nat.digitChar).reverse

/-- One `std::getline(stream, item, delim)`: the item and what is left in the stream, or nothing
when the stream is at its end. -/
def getline (delim : Char) : Text → Option (Text × Text)
  | []     => none
  | c :: s => some (before delim (c :: s), after delim (c :: s))

/-- The items a `while (std::getline(stream, item, delim))` loop sees. -/
def items (delim : Char) : Text → List Text
  | [] => []
  | c :: s =>
    if c = delim then [] :: items delim s
    else match items delim s with
      | []           => [[c]]
      | item :: rest => (c :: item) :: rest

@[simp] lemma before_nil (sep : Char) : before sep [] = [] := rfl

@[simp] lemma after_nil (sep : Char) : after sep [] = [] := rfl

lemma before_cons_self (sep : Char) (s : Text) : before sep (sep :: s) = [] := by
  simp [before]

lemma after_cons_self (sep : Char) (s : Text) : after sep (sep :: s) = s := by
  simp [after]

lemma before_cons_of_ne {sep c : Char} (h : c ≠ sep) (s : Text) :
    before sep (c :: s) = c :: before sep s := by
  simp [before, h]

lemma after_cons_of_ne {sep c : Char} (h : c ≠ sep) (s : Text) :
    after sep (c :: s) = after sep s := by
  simp [after, h]

lemma before_append_cons {sep : Char} {s : Text} (h : sep ∉ s) (t : Text) :
    before sep (s ++ sep :: t) = s := by
  induction s with
  | nil => exact before_cons_self sep t
  | cons c s ih =>
    simp only [List.mem_cons, not_or] at h
    rw [List.cons_append, before_cons_of_ne (Ne.symm h.1), ih h.2]

lemma after_append_cons {sep : Char} {s : Text} (h : sep ∉ s) (t : Text) :
    after sep (s ++ sep :: t) = t := by
  induction s with
  | nil => exact after_cons_self sep t
  | cons c s ih =>
    simp only [List.mem_cons, not_or] at h
    rw [List.cons_append, after_cons_of_ne (Ne.symm h.1), ih h.2]

lemma not_mem_before (sep : Char) (s : Text) : sep ∉ before sep s := by
  intro h
  simpa using List.mem_takeWhile_imp h

/-- A text with a separator is cut at the first one. -/
lemma before_append_after {sep : Char} {s : Text} (h : sep ∈ s) :
    before sep s ++ sep :: after sep s = s := by
  induction s with
  | nil => cases h
  | cons c s ih =>
    by_cases hc : c = sep
    · subst hc
      rw [before_cons_self, after_cons_self, List.nil_append]
    · rw [before_cons_of_ne hc, after_cons_of_ne hc, List.cons_append,
        ih ((List.mem_cons.mp h).resolve_left (Ne.symm hc))]

lemma afterLast_of_not_mem {sep : Char} {s : Text} (h : sep ∉ s) : afterLast sep s = s := by
  refine List.rtakeWhile_eq_self_iff.mpr fun c hc => ?_
  have hne : c ≠ sep := ne_of_mem_of_not_mem hc h
  exact decide_eq_true hne

lemma afterLast_append_cons {sep : Char} {t : Text} (h : sep ∉ t) (s : Text) :
    afterLast sep (s ++ sep :: t) = t := by
  have hrev : (s ++ sep :: t).reverse = t.reverse ++ sep :: s.reverse := by
    rw [List.reverse_append, List.reverse_cons, List.append_assoc, List.singleton_append]
  have hbefore : before sep (t.reverse ++ sep :: s.reverse) = t.reverse :=
    before_append_cons (mt List.mem_reverse.mp h) _
  calc afterLast sep (s ++ sep :: t)
      = (before sep (s ++ sep :: t).reverse).reverse := rfl
    _ = t := by rw [hrev, hbefore, List.reverse_reverse]

/-- A text without the delimiter is a single item, unless it is empty. -/
lemma items_of_not_mem {delim : Char} {s : Text} (h : delim ∉ s) (hne : s ≠ []) :
    items delim s = [s] := by
  induction s with
  | nil => exact absurd rfl hne
  | cons c s ih =>
    simp only [List.mem_cons, not_or] at h
    rw [items, if_neg (Ne.symm h.1)]
    cases s with
    | nil => rfl
    | cons d s => rw [ih h.2 (by simp)]

/-- `items` is the loop it stands for: as long as `getline` succeeds it takes the item and goes
on with what is left. -/
lemma items_eq_of_getline (delim : Char) (s : Text) :
    items delim s = match getline delim s with
      | none              => []
      | some (item, rest) => item :: items delim rest := by
  induction s with
  | nil => rfl
  | cons c s ih =>
    by_cases hc : c = delim
    · subst hc
      simp [items, getline, before_cons_self, after_cons_self]
    · rw [items, if_neg hc, ih]
      simp only [getline, before_cons_of_ne hc, after_cons_of_ne hc]
      cases s <;> simp [items]

end Text
