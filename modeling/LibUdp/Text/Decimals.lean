import LibUdp.Text.Rounding
import Mathlib.Data.Nat.Digits.Lemmas

/-!
# Doubles as texts

What `std::to_string` prints for a double, `std::stod` reads to its end. It need not be the same
number that it reads, but it is one that is printed as the same text.
-/

namespace Text

/-! ### Texts with six decimals -/

/-- A number of millionths, as `%f` prints it. -/
def fixed (n : ℕ) : Text :=
  decimal (n / 10 ^ 6) ++ '.' :: List.replicate (6 - (decimal (n % 10 ^ 6)).length) '0' ++
    decimal (n % 10 ^ 6)

section fixed

variable {n : ℕ} {c : Char}

lemma ofDigits_append (base : ℕ) (s t : Text) :
    ofDigits base (s ++ t) = ofDigits base s * base ^ t.length + ofDigits base t := by
  induction t using List.reverseRecOn with
  | nil => simp [ofDigits]
  | append_singleton t c ih =>
    have hconcat : ∀ u : Text, ofDigits base (u ++ [c]) = base * ofDigits base u + digitValue c :=
      fun u => List.foldl_concat ..
    rw [← List.append_assoc, hconcat, ih, hconcat, List.length_append, List.length_singleton]
    ring

lemma ofDigits_replicate_zero (base k : ℕ) : ofDigits base (List.replicate k '0') = 0 := by
  induction k with
  | zero => rfl
  | succ k ih =>
    rw [List.replicate_succ', ofDigits_append, ih, Nat.zero_mul]
    rfl

lemma length_decimal_le (h : n < 10 ^ 6) : (decimal n).length ≤ 6 := by
  rw [decimal]
  split_ifs with hn
  · exact (by decide : 1 ≤ 6)
  · rw [List.length_reverse, List.length_map]
    exact (Nat.digits_length_le_iff (by decide) n).mpr h

/-- The digits behind the point. -/
def decimals (n : ℕ) : Text :=
  List.replicate (6 - (decimal (n % 10 ^ 6)).length) '0' ++ decimal (n % 10 ^ 6)

lemma fixed_eq (n : ℕ) : fixed n = decimal (n / 10 ^ 6) ++ '.' :: decimals n :=
  List.append_assoc ..

lemma length_decimals (n : ℕ) : (decimals n).length = 6 := by
  have hle : (decimal (n % 10 ^ 6)).length ≤ 6 := length_decimal_le (Nat.mod_lt _ (by decide))
  rw [decimals, List.length_append, List.length_replicate]
  omega

lemma isDigit_of_mem_decimals (h : c ∈ decimals n) : c.isDigit = true := by
  rcases List.mem_append.mp h with h | h
  · rw [List.eq_of_mem_replicate h]
    rfl
  · exact isDigit_of_mem_decimal h

lemma mem_fixed (h : c ∈ fixed n) : c = '.' ∨ c.isDigit = true := by
  rw [fixed_eq, List.mem_append, List.mem_cons] at h
  rcases h with h | h | h
  · exact .inr (isDigit_of_mem_decimal h)
  · exact .inl h
  · exact .inr (isDigit_of_mem_decimals h)

lemma ofDigits_fixed (n : ℕ) : ofDigits 10 (decimal (n / 10 ^ 6) ++ decimals n) = n := by
  rw [ofDigits_append, length_decimals, decimals, ofDigits_append, ofDigits_replicate_zero,
    ofDigits_decimal, ofDigits_decimal]
  omega

lemma toLower_of_isDigit (h : c.isDigit = true) : c.toLower = c := by
  delta Char.toLower
  rw [dif_neg]
  rintro ⟨hlow, -⟩
  simp only [Char.isDigit, Bool.and_eq_true, decide_eq_true_eq] at h
  exact absurd (UInt32.le_trans hlow h.2) (by decide)

lemma toLower_fixed (n : ℕ) : toLower (fixed n) = fixed n := by
  have hsame : ∀ c ∈ fixed n, c.toLower = c := by
    intro c hc
    rcases mem_fixed hc with rfl | hc
    · rfl
    · exact toLower_of_isDigit hc
  exact (List.map_congr_left hsame).trans (List.map_id _)

lemma isPrefixOf_fixed {word : Text} (hc : c ∈ word) (hpoint : c ≠ '.')
    (hdigit : c.isDigit = false) : word.isPrefixOf (fixed n) = false := by
  by_contra hle
  rw [Bool.not_eq_false, List.isPrefixOf_iff_prefix] at hle
  rcases mem_fixed (hle.subset hc) with hc | hc
  · exact hpoint hc
  · rw [hdigit] at hc
    cases hc

lemma scanMantissa_fixed (n : ℕ) : scanMantissa Char.isDigit (fixed n) =
    (decimal (n / 10 ^ 6), decimals n, (fixed n).length) := by
  have hwhole : ∀ c ∈ decimal (n / 10 ^ 6), c.isDigit = true := fun c => isDigit_of_mem_decimal
  have htail : ('.' :: decimals n).dropWhile Char.isDigit = '.' :: decimals n := rfl
  have hhead : ('.' :: decimals n).takeWhile Char.isDigit = [] := rfl
  have hdecimals : (decimals n).takeWhile Char.isDigit = decimals n :=
    List.takeWhile_eq_self_iff.mpr fun c => isDigit_of_mem_decimals
  rw [scanMantissa, fixed_eq, List.takeWhile_append_of_pos hwhole, hhead,
    List.dropWhile_append_of_pos hwhole, htail, List.append_nil]
  simp only [hdecimals, decimal_ne_nil, false_and, if_false, List.length_append, List.length_cons]
  rw [Nat.add_right_comm, Nat.add_assoc]

/-- The literal is read to its end. -/
lemma scanFloat_fixed (n : ℕ) :
    scanFloat (fixed n) = some (.ratio n (10 ^ 6), (fixed n).length) := by
  have hlength : (fixed n).length ≠ 0 := by
    rw [fixed_eq, List.length_append, List.length_cons]
    omega
  rw [scanFloat]
  dsimp only
  rw [toLower_fixed, isPrefixOf_fixed (c := 'i') (by decide) (by decide) (by decide),
    isPrefixOf_fixed (c := 'i') (by decide) (by decide) (by decide),
    isPrefixOf_fixed (c := 'n') (by decide) (by decide) (by decide),
    isPrefixOf_fixed (c := 'x') (by decide) (by decide) (by decide), scanMantissa_fixed]
  have hup : ((0 : ℤ) - (6 : ℕ)).toNat = 0 := rfl
  have hdown : (-((0 : ℤ) - (6 : ℕ))).toNat = 6 := rfl
  simp only [Bool.false_eq_true, false_and, if_false, hlength, List.drop_length, ofDigits_fixed,
    length_decimals, scanExponent, scaled, Nat.add_zero, hup, hdown, Nat.pow_zero, Nat.mul_one]

end fixed

end Text

/-! ### Sign and pattern -/

namespace Double

open Text

def isNegative (x : Double) : Bool := 2 ^ 63 ≤ x.bits.toNat

/-- The bits but the sign. -/
def pattern (x : Double) : ℕ := x.bits.toNat % 2 ^ 63

def IsFinite (x : Double) : Prop := x.pattern < infinity

/-- The number that a finite double stands for. -/
def value (x : Double) : ℚ := if x.isNegative then -magnitude x.pattern else magnitude x.pattern

/-- The other one is finite and less than a millionth away, if this one is finite. -/
def Near (x y : Double) : Prop := x.IsFinite → y.IsFinite ∧ |y.value - x.value| < 1 / 10 ^ 6

lemma pattern_lt (x : Double) : x.pattern < 2 ^ 63 := Nat.mod_lt _ (by decide)

variable {neg : Bool} {bits : ℕ}

lemma toNat_bits_ofMagnitude (neg : Bool) (h : bits < 2 ^ 63) :
    (ofMagnitude neg bits).bits.toNat = if neg then 2 ^ 63 + bits else bits := by
  refine UInt64.toNat_ofNat_of_lt' ?_
  rw [UInt64.size]
  split_ifs <;> omega

lemma isNegative_ofMagnitude (neg : Bool) (h : bits < 2 ^ 63) :
    (ofMagnitude neg bits).isNegative = neg := by
  rw [isNegative, toNat_bits_ofMagnitude neg h]
  cases neg with
  | true => simp
  | false => simpa using h

lemma pattern_ofMagnitude (neg : Bool) (h : bits < 2 ^ 63) :
    (ofMagnitude neg bits).pattern = bits := by
  rw [pattern, toNat_bits_ofMagnitude neg h]
  split_ifs <;> omega

end Double

namespace Text

/-! ### Printing and reading -/

def sign (neg : Bool) : Text := if neg then ['-'] else []

/-- What is printed for a pattern after the sign. -/
def unsigned (bits : ℕ) : Text :=
  if bits < infinity then fixed (millionths bits)
  else (if bits = infinity then "inf" else "nan").toList

lemma ofDouble_eq (x : Double) : ofDouble x = sign x.isNegative ++ unsigned x.pattern := by
  have hlt := x.pattern_lt
  have hbits : x.bits.toNat = (if x.isNegative then 2 ^ 63 else 0) + x.pattern := by
    have := x.bits.toNat_lt
    simp only [Double.isNegative, Double.pattern, decide_eq_true_eq]
    split_ifs <;> omega
  have hexponent : x.bits.toNat / 2 ^ 52 % 2 ^ 11 = x.pattern / 2 ^ 52 % 2 ^ 11 := by
    rw [hbits]
    split_ifs <;> omega
  have hfraction : x.bits.toNat % 2 ^ 52 = x.pattern % 2 ^ 52 := by
    rw [hbits]
    split_ifs <;> omega
  rw [ofDouble]
  dsimp only
  rw [hexponent, hfraction, unsigned, infinity]
  generalize x.pattern = bits at hlt hbits ⊢
  have hmagnitude : (if bits / 2 ^ 52 % 2 ^ 11 = 2 ^ 11 - 1 then
      (if bits % 2 ^ 52 = 0 then "inf" else "nan").toList else fixed (millionths bits)) =
      if bits < 0x7FF0000000000000 then fixed (millionths bits)
      else (if bits = 0x7FF0000000000000 then "inf" else "nan").toList := by
    by_cases hfinite : bits < 0x7FF0000000000000
    · rw [if_pos hfinite, if_neg (by omega)]
    · rw [if_neg hfinite, if_pos (by omega)]
      congr 1
      exact if_congr (by omega) rfl rfl
  rw [← hmagnitude, Double.isNegative]
  by_cases hneg : 2 ^ 63 ≤ x.bits.toNat
  · rw [if_pos hneg, decide_eq_true hneg]
    rfl
  · rw [if_neg hneg, decide_eq_false hneg]
    rfl

/-- The text starts with neither white space nor a sign. -/
def Bare (t : Text) : Prop := ∃ c s, t = c :: s ∧ isSpace c = false ∧ c ≠ '-' ∧ c ≠ '+'

/-- What `stod` makes of a literal that it has read to the end of the text. -/
def ofLiteral (neg : Bool) (length : ℕ) : FloatLiteral → Except ConversionError (Double × ℕ)
  | .infinity      => .ok (ofMagnitude neg infinity, length)
  | .nan mant      =>
    if 2 ^ 64 ≤ mant then .error .outOfRange
    else .ok (ofMagnitude neg (0x7FF8000000000000 + mant % 2 ^ 51), length)
  | .ratio num den =>
    if isRangeError num den then .error .outOfRange
    else .ok (ofMagnitude neg (binary64 num den), length)

lemma scanSign_bare {t : Text} (h : Bare t) :
    t.takeWhile isSpace = [] ∧ t.dropWhile isSpace = t ∧ scanSign t = (false, 0, t) := by
  obtain ⟨c, s, rfl, hspace, hminus, hplus⟩ := h
  refine ⟨by simp [hspace], by simp [hspace], ?_⟩
  unfold scanSign
  split
  · rename_i heq
    exact absurd (List.cons.inj heq).1 hminus
  · rename_i heq
    exact absurd (List.cons.inj heq).1 hplus
  · rfl

lemma stod_sign {t : Text} {literal : FloatLiteral} (neg : Bool) (hbare : Bare t)
    (h : scanFloat t = some (literal, t.length)) :
    stod (sign neg ++ t) = ofLiteral neg (sign neg ++ t).length literal := by
  have hscan : (sign neg ++ t).takeWhile isSpace = [] ∧
      scanSign ((sign neg ++ t).dropWhile isSpace) = (neg, (sign neg).length, t) := by
    cases neg with
    | true => exact ⟨rfl, rfl⟩
    | false =>
      obtain ⟨htake, hdrop, hsign⟩ := scanSign_bare hbare
      exact ⟨htake, (congrArg scanSign hdrop).trans hsign⟩
  rw [stod, hscan.1, hscan.2]
  dsimp only
  rw [h, List.length_append, List.length_nil, Nat.zero_add]
  cases literal <;> rfl

lemma isRangeError_of_lt {n : ℕ} (h : binary64 n (10 ^ 6) < infinity) :
    isRangeError n (10 ^ 6) = false := by
  rw [isRangeError, Bool.or_eq_false_iff, decide_eq_false_iff_not, not_le]
  refine ⟨h, ?_⟩
  rw [Bool.and_eq_false_iff]
  rcases Nat.eq_zero_or_pos n with rfl | hpos
  · right
    rw [Nat.zero_mul]
    rfl
  · left
    have hbig : ∀ k ≥ 100, 10 ^ 6 * (2 ^ 54 - 1) ≤ n * 2 ^ k := by
      intro k hk
      calc 10 ^ 6 * (2 ^ 54 - 1) ≤ 2 ^ 100 := by decide
        _ ≤ 2 ^ k := Nat.pow_le_pow_right (by decide) hk
        _ ≤ n * 2 ^ k := Nat.le_mul_of_pos_left _ hpos
    exact decide_eq_false (not_lt.mpr (hbig 1076 (by decide)))

/-- What is printed for the one pattern is read, after any sign, as the other one, which is printed
as the same text. -/
structure Rereads (bits bits' : ℕ) (literal : FloatLiteral) : Prop where
  bare : Bare (unsigned bits)
  scan : scanFloat (unsigned bits) = some (literal, (unsigned bits).length)
  pattern : ∀ neg length, ofLiteral neg length literal = .ok (ofMagnitude neg bits', length)
  lt : bits' < 2 ^ 63
  same : unsigned bits' = unsigned bits
  near : bits < infinity → bits' < infinity ∧ |magnitude bits' - magnitude bits| < 1 / 10 ^ 6

lemma bare_fixed (n : ℕ) : Bare (fixed n) := by
  obtain ⟨c, s, hs⟩ := List.exists_cons_of_ne_nil (decimal_ne_nil (n / 10 ^ 6))
  have hc : c.isDigit = true := isDigit_of_mem_decimal (hs ▸ List.mem_cons_self)
  refine ⟨c, s ++ '.' :: decimals n, by rw [fixed_eq, hs, List.cons_append],
    isSpace_of_isDigit hc, ?_, ?_⟩
  · rintro rfl
    cases hc
  · rintro rfl
    cases hc

lemma exists_rereads {bits : ℕ} (h : bits < 2 ^ 63) :
    ∃ bits' literal, Rereads bits bits' literal := by
  rcases lt_trichotomy bits infinity with hlt | rfl | hgt
  · obtain ⟨hfinite, hsame, hnear⟩ := millionths_binary64 hlt
    have htext : unsigned bits = fixed (millionths bits) := if_pos hlt
    refine ⟨binary64 (millionths bits) (10 ^ 6), .ratio (millionths bits) (10 ^ 6), ?_, ?_, ?_,
      hfinite.trans (by decide), ?_, fun _ => ⟨hfinite, hnear⟩⟩
    · exact htext ▸ bare_fixed _
    · rw [htext, scanFloat_fixed]
    · intro neg length
      rw [ofLiteral, isRangeError_of_lt hfinite, if_neg Bool.false_ne_true]
    · rw [htext, unsigned, if_pos hfinite, hsame]
  · exact ⟨infinity, .infinity, ⟨'i', _, rfl, rfl, by decide, by decide⟩, rfl, fun _ _ => rfl,
      by decide, rfl, fun hlt => absurd hlt (lt_irrefl _)⟩
  · have htext : unsigned bits = "nan".toList := by
      rw [unsigned, if_neg hgt.not_gt, if_neg hgt.ne']
    refine ⟨0x7FF8000000000000, .nan 0, ?_, ?_, fun _ _ => rfl, by decide, htext ▸ rfl,
      fun hlt => absurd hlt hgt.not_gt⟩
    · exact htext ▸ ⟨'n', _, rfl, rfl, by decide, by decide⟩
    · exact htext ▸ rfl

/-- What is printed is read to its end, as a number that is printed as the same text. -/
theorem exists_stod_ofDouble (x : Double) : ∃ y, stod (ofDouble x) = .ok (y, (ofDouble x).length) ∧
    ofDouble y = ofDouble x ∧ x.Near y := by
  obtain ⟨bits, literal, h⟩ := exists_rereads x.pattern_lt
  have hneg := Double.isNegative_ofMagnitude x.isNegative h.lt
  have hpattern := Double.pattern_ofMagnitude x.isNegative h.lt
  refine ⟨ofMagnitude x.isNegative bits, ?_, ?_, ?_⟩
  · rw [ofDouble_eq, stod_sign _ h.bare h.scan, h.pattern]
  · rw [ofDouble_eq, ofDouble_eq, hneg, hpattern, h.same]
  · intro hfinite
    obtain ⟨hfinite', hclose⟩ := h.near hfinite
    rw [Double.IsFinite, Double.value, Double.value, hneg, hpattern]
    refine ⟨hfinite', ?_⟩
    split_ifs
    · rw [neg_sub_neg, abs_sub_comm]
      exact hclose
    · exact hclose

end Text
