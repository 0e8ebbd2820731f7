import LibUdp.Text.Numeric

/-!
# Numbers as texts

`std::to_string` of signed integers and of doubles. What it prints for an integer is read back by
`std::from_chars` and `std::stoi`.
-/

namespace Text

/-- `std::to_string` of a signed number. -/
def ofInt (n : ℤ) : Text := if n < 0 then '-' :: decimal n.natAbs else decimal n.natAbs

/-- The quotient rounded to the nearest number, ties to even. -/
def roundDiv (num den : ℕ) : ℕ :=
  let q := num / den
  let r := num % den
  if den < 2 * r ∨ (den = 2 * r ∧ q % 2 = 1) then q + 1 else q

/-- `std::to_string` of a double, which is `%f`. -/
def ofDouble (x : Double) : Text :=
  let bits := x.bits.toNat
  let exponent := bits / 2 ^ 52 % 2 ^ 11
  let fraction := bits % 2 ^ 52
  let magnitude :=
    if exponent = 2 ^ 11 - 1 then (if fraction = 0 then "inf" else "nan").toList
    else
      let mantissa := if exponent = 0 then fraction else 2 ^ 52 + fraction
      let scale : ℤ := (max exponent 1 : ℕ) - 1075
      let millionths := roundDiv (mantissa * 10 ^ 6 * 2 ^ scale.toNat) (2 ^ (-scale).toNat)
      let digits := decimal (millionths % 10 ^ 6)
      decimal (millionths / 10 ^ 6) ++ '.' :: List.replicate (6 - digits.length) '0' ++ digits
  if 2 ^ 63 ≤ bits then '-' :: magnitude else magnitude

/-! ### Digits -/

lemma digitValue_digitChar {d : ℕ} (h : d < 10) : digitValue d.digitChar = d := by
  have hall : ∀ d < 10, digitValue d.digitChar = d := by decide
  exact hall d h

lemma isDigit_of_mem_decimal {n : ℕ} {c : Char} (h : c ∈ decimal n) : c.isDigit = true := by
  rw [decimal] at h
  split_ifs at h
  · rw [List.mem_singleton] at h
    subst h
    rfl
  · rw [List.mem_reverse, List.mem_map] at h
    obtain ⟨d, hd, rfl⟩ := h
    rw [Nat.isDigit_digitChar, decide_eq_true_eq]
    exact Nat.digits_lt_base (by decide) hd

lemma ofDigits_decimal (n : ℕ) : ofDigits 10 (decimal n) = n := by
  rw [decimal]
  split_ifs with hn
  · rw [hn]
    rfl
  · rw [ofDigits, List.foldl_reverse, List.foldr_map]
    conv_rhs => rw [← Nat.ofDigits_digits 10 n, Nat.ofDigits_eq_foldr]
    refine List.foldr_ext _ _ _ fun d hd k => ?_
    rw [digitValue_digitChar (Nat.digits_lt_base (by decide) hd), Nat.add_comm]
    rfl

lemma decimal_injective : Function.Injective decimal :=
  Function.LeftInverse.injective ofDigits_decimal

lemma decimal_ne_nil (n : ℕ) : decimal n ≠ [] := by
  rw [decimal]
  split_ifs with hn
  · exact List.cons_ne_nil _ _
  · simpa [Nat.digits_ne_nil_iff_ne_zero] using hn

lemma takeWhile_isDigit_decimal (n : ℕ) : (decimal n).takeWhile Char.isDigit = decimal n :=
  List.takeWhile_eq_self_iff.mpr fun _ => isDigit_of_mem_decimal

/-! ### Integers -/

lemma readInt_decimal {neg : Bool} {n : ℕ} {x : Int32} (h : toInt32? (signed neg n) = some x)
    (skipped : ℕ) :
    readInt neg skipped (decimal n) = .ok (x, skipped + (decimal n).length) := by
  rw [readInt, takeWhile_isDigit_decimal, if_neg (decimal_ne_nil n), ofDigits_decimal, h]

lemma toInt32?_toInt (x : Int32) : toInt32? x.toInt = some x :=
  toInt32?_eq_some_iff.mpr rfl

lemma fromChars_decimal (n : ℕ) : fromChars (decimal n) = readInt false 0 (decimal n) := by
  obtain ⟨c, s, hs⟩ := List.exists_cons_of_ne_nil (decimal_ne_nil n)
  have hc : c.isDigit = true := isDigit_of_mem_decimal (n := n) (hs ▸ List.mem_cons_self)
  have hne : c ≠ '-' := by
    rintro rfl
    cases hc
  rw [hs, fromChars]
  rintro t ht
  exact hne (List.cons.inj ht).1

/-- An `int` is printed so that `from_chars` reads it back. -/
lemma fromChars_ofInt (x : Int32) :
    fromChars (ofInt x.toInt) = .ok (x, (ofInt x.toInt).length) := by
  rw [ofInt]
  split_ifs with hneg
  · have hvalue : signed true x.toInt.natAbs = x.toInt := by
      rw [signed, if_pos rfl, Int.ofNat_natAbs_of_nonpos hneg.le, neg_neg]
    rw [fromChars, readInt_decimal (by rw [hvalue, toInt32?_toInt]), List.length_cons,
      Nat.add_comm]
  · have hvalue : signed false x.toInt.natAbs = x.toInt := by
      rw [signed, if_neg Bool.false_ne_true, Int.natAbs_of_nonneg (not_lt.mp hneg)]
    rw [fromChars_decimal, readInt_decimal (by rw [hvalue, toInt32?_toInt]), Nat.zero_add]

lemma stoi_ofInt (x : Int32) : stoi (ofInt x.toInt) = .ok (x, (ofInt x.toInt).length) :=
  stoi_of_fromChars (fromChars_ofInt x)

lemma mem_ofInt {n : ℤ} {c : Char} (h : c ∈ ofInt n) : c = '-' ∨ c.isDigit = true := by
  rw [ofInt] at h
  split_ifs at h
  · rcases List.mem_cons.mp h with rfl | h
    · exact .inl rfl
    · exact .inr (isDigit_of_mem_decimal h)
  · exact .inr (isDigit_of_mem_decimal h)

end Text
