import LibUdp.Text.Basic
import Mathlib.Algebra.Order.Group.Nat
import Mathlib.Algebra.Order.Ring.Int

/-!
# Numbers in texts

`std::stoi`, `std::from_chars` and `std::stod`. All three convert the longest prefix that is a
number and tell how many characters it has; what may stand before the digits differs.
-/

/-- A binary64 value, by its bit pattern. -/
structure Double where
  bits : UInt64
  deriving DecidableEq

namespace Text

/-- The exceptions of `std::stoi` and `std::stod`, or the error codes of `std::from_chars`. -/
inductive ConversionError where
  | invalidArgument
  | outOfRange
  deriving DecidableEq

/-! ### Digits and signs -/

def digitValue (c : Char) : ℕ :=
  if c.isDigit then c.toNat - '0'.toNat else c.toLower.toNat - 'a'.toNat + 10

/-- The number written with the given digits. -/
def ofDigits (base : ℕ) (digits : Text) : ℕ :=
  digits.foldl (fun n c => base * n + digitValue c) 0

def isHexDigit (c : Char) : Bool :=
  c.isDigit || ('a' ≤ c.toLower && c.toLower ≤ 'f')

/-- An optional sign: whether it is a minus, how long it is, and the text after it. -/
def scanSign : Text → Bool × ℕ × Text
  | '-' :: s => (true, 1, s)
  | '+' :: s => (false, 1, s)
  | s        => (false, 0, s)

def signed (neg : Bool) (n : ℕ) : ℤ := if neg then -n else n

/-! ### Integers -/

def toInt32? (n : ℤ) : Option Int32 :=
  if -2 ^ 31 ≤ n ∧ n < 2 ^ 31 then some (.ofInt n) else none

/-- The integer whose digits start `s`, when `skipped` characters stand before them. -/
def readInt (neg : Bool) (skipped : ℕ) (s : Text) : Except ConversionError (Int32 × ℕ) :=
  let digits := s.takeWhile Char.isDigit
  if digits = [] then .error .invalidArgument
  else match toInt32? (signed neg (ofDigits 10 digits)) with
    | none   => .error .outOfRange
    | some n => .ok (n, skipped + digits.length)

/-- `std::stoi(s, &pos)`: the number and `pos`. White space and either sign may come first. -/
def stoi (s : Text) : Except ConversionError (Int32 × ℕ) :=
  let (neg, signs, digits) := scanSign (s.dropWhile isSpace)
  readInt neg ((s.takeWhile isSpace).length + signs) digits

/-- `std::from_chars(first, last, int &)`: only a minus may come first. -/
def fromChars : Text → Except ConversionError (Int32 × ℕ)
  | '-' :: s => readInt true 1 s
  | s        => readInt false 0 s

lemma readInt_eq_ok {neg : Bool} {skipped pos : ℕ} {s : Text} {n : Int32}
    (h : readInt neg skipped s = .ok (n, pos)) :
    s.takeWhile Char.isDigit ≠ [] ∧ pos = skipped + (s.takeWhile Char.isDigit).length := by
  simp only [readInt] at h
  split_ifs at h with hne
  refine ⟨hne, ?_⟩
  split at h
  · cases h
  · cases h
    rfl

lemma isDigit_head_of_readInt {neg : Bool} {skipped : ℕ} {s : Text} {r : Int32 × ℕ}
    (h : readInt neg skipped s = .ok r) : ∃ c t, s = c :: t ∧ c.isDigit = true := by
  cases s with
  | nil => exact absurd rfl (readInt_eq_ok h).1
  | cons c t =>
    refine ⟨c, t, rfl, ?_⟩
    by_contra hc
    exact (readInt_eq_ok h).1 (by simp [hc])

lemma isSpace_of_isDigit {c : Char} (h : c.isDigit = true) : isSpace c = false := by
  by_contra hs
  simp only [isSpace, Bool.not_eq_false, Bool.or_eq_true, decide_eq_true_eq] at hs
  rcases hs with ((((rfl | rfl) | rfl) | rfl) | rfl) | rfl <;> cases h

lemma scanSign_of_isDigit {c : Char} {s : Text} (h : c.isDigit = true) :
    scanSign (c :: s) = (false, 0, c :: s) := by
  unfold scanSign
  split
  · rename_i heq
    cases heq
    cases h
  · rename_i heq
    cases heq
    cases h
  · rfl

/-- What `from_chars` accepts, `stoi` reads in the same way. -/
lemma stoi_of_fromChars {s : Text} {r : Int32 × ℕ} (h : fromChars s = .ok r) :
    stoi s = .ok r := by
  unfold fromChars at h
  split at h
  · rename_i t
    have hminus : isSpace '-' = false := rfl
    simpa [stoi, hminus, scanSign] using h
  · obtain ⟨c, t, rfl, hc⟩ := isDigit_head_of_readInt h
    simpa [stoi, isSpace_of_isDigit hc, scanSign_of_isDigit hc] using h

/-- Digits are read from the first one to the last. -/
lemma stoi_of_isDigit {s : Text} (hne : s ≠ []) (h : ∀ c ∈ s, c.isDigit = true) :
    stoi s = match toInt32? (ofDigits 10 s) with
      | none   => .error .outOfRange
      | some n => .ok (n, s.length) := by
  obtain ⟨c, t, rfl⟩ := List.exists_cons_of_ne_nil hne
  have hc : c.isDigit = true := h c List.mem_cons_self
  have hdigits : (c :: t).takeWhile Char.isDigit = c :: t := List.takeWhile_eq_self_iff.mpr h
  simp [stoi, isSpace_of_isDigit hc, scanSign_of_isDigit hc, readInt, hdigits, signed]

lemma toInt32?_eq_some_iff {k : ℤ} {n : Int32} : toInt32? k = some n ↔ n.toInt = k := by
  have hle := n.le_toInt
  have hlt := n.toInt_lt
  rw [toInt32?]
  split_ifs with h
  · rw [Option.some.injEq]
    constructor
    · rintro rfl
      exact Int32.toInt_ofInt_of_le (by omega) (by omega)
    · rintro rfl
      exact Int32.ofInt_toInt n
  · refine iff_of_false (by simp) ?_
    rintro rfl
    exact h ⟨by omega, by omega⟩

lemma forall_of_length_takeWhile {p : Char → Bool} {s : Text}
    (h : s.length = (s.takeWhile p).length) : ∀ c ∈ s, p c = true := by
  rw [← List.takeWhile_eq_self_iff]
  exact (List.takeWhile_prefix p).eq_of_length h.symm

/-- A base-10 literal of `n`. -/
def IsDecimal (s : Text) (n : ℤ) : Prop :=
  ∃ neg digits, s = (if neg then ['-'] else []) ++ digits ∧ digits ≠ [] ∧
    (∀ c ∈ digits, c.isDigit = true) ∧ n = signed neg (ofDigits 10 digits)

lemma readInt_eq_ok_length_iff {neg : Bool} {skipped : ℕ} {s : Text} {n : Int32} :
    readInt neg skipped s = .ok (n, skipped + s.length) ↔
      s ≠ [] ∧ (∀ c ∈ s, c.isDigit = true) ∧ n.toInt = signed neg (ofDigits 10 s) := by
  rw [readInt, ← List.takeWhile_eq_self_iff]
  constructor
  · intro h
    obtain ⟨hne, hpos⟩ := readInt_eq_ok h
    have hdigits : s.takeWhile Char.isDigit = s :=
      List.takeWhile_eq_self_iff.mpr (forall_of_length_takeWhile (Nat.add_left_cancel hpos))
    rw [hdigits] at h hne
    refine ⟨hne, hdigits, ?_⟩
    simp only [hne, if_false] at h
    split at h
    · cases h
    · rename_i m hm
      cases h
      exact toInt32?_eq_some_iff.mp hm
  · rintro ⟨hne, hdigits, hn⟩
    have hread := toInt32?_eq_some_iff.mpr hn
    simp [hdigits, hne, hread]

/-- `from_chars` reads a text to its end just when it is a literal of an `int`. -/
lemma fromChars_eq_ok_length_iff {s : Text} {n : Int32} :
    fromChars s = .ok (n, s.length) ↔ IsDecimal s n.toInt := by
  unfold fromChars
  split
  · rename_i digits
    rw [List.length_cons, add_comm, readInt_eq_ok_length_iff]
    constructor
    · intro h
      exact ⟨true, digits, rfl, h⟩
    · rintro ⟨neg, digits', heq, h⟩
      cases neg with
      | true =>
        cases heq
        exact h
      | false =>
        cases heq
        exact absurd (h.2.1 '-' List.mem_cons_self) (by decide)
  · rename_i hne
    rw [← Nat.zero_add s.length, readInt_eq_ok_length_iff]
    constructor
    · intro h
      exact ⟨false, s, rfl, h⟩
    · rintro ⟨neg, digits, heq, h⟩
      cases neg with
      | true => exact absurd heq (hne digits)
      | false =>
        cases heq
        exact h

/-- A text that `stoi` reads to its end is white space, a sign and digits. -/
lemma mem_of_stoi_eq_length {s : Text} {n : Int32} (h : stoi s = .ok (n, s.length)) :
    ∀ c ∈ s, isSpace c = true ∨ c = '-' ∨ c = '+' ∨ c.isDigit = true := by
  simp only [stoi] at h
  have hpos := (readInt_eq_ok h).2
  have hsplit : s.takeWhile isSpace ++ s.dropWhile isSpace = s := List.takeWhile_append_dropWhile
  have hlen := congrArg List.length hsplit
  rw [List.length_append] at hlen
  intro c hc
  rw [← hsplit, List.mem_append] at hc
  rcases hc with hc | hc
  · exact .inl (List.mem_takeWhile_imp hc)
  generalize s.dropWhile isSpace = rest at *
  unfold scanSign at hpos
  split at hpos <;> dsimp only at hpos
  · rcases List.mem_cons.mp hc with rfl | hc
    · exact .inr (.inl rfl)
    · simp only [List.length_cons] at hlen
      exact .inr (.inr (.inr (forall_of_length_takeWhile (by omega) c hc)))
  · rcases List.mem_cons.mp hc with rfl | hc
    · exact .inr (.inr (.inl rfl))
    · simp only [List.length_cons] at hlen
      exact .inr (.inr (.inr (forall_of_length_takeWhile (by omega) c hc)))
  · exact .inr (.inr (.inr (forall_of_length_takeWhile (by omega) c hc)))

/-! ### Floating-point numbers -/

/-- The quotient `num / den`, rounded to the nearest binary64 value, ties to even. The result is
the bit pattern without sign; it is past the pattern of infinity when the quotient is too large. -/
def binary64 (num den : ℕ) : ℕ :=
  if num = 0 then 0
  else
    let log : ℤ := num.log2 - den.log2
    let exponent : ℤ :=
      if den * 2 ^ log.toNat ≤ num * 2 ^ (-log).toNat then log else log - 1
    -- the unit in the last place, that of the subnormal numbers at least
    let ulp := max (exponent - 52) (-1074)
    let n := num * 2 ^ (-ulp).toNat
    let d := den * 2 ^ ulp.toNat
    let q := n / d
    let r := n % d
    let mantissa := if d < 2 * r ∨ (d = 2 * r ∧ q % 2 = 1) then q + 1 else q
    (ulp + 1074).toNat * 2 ^ 52 + mantissa

/-- `ERANGE`: the result overflows, or is subnormal and not exact. -/
def isRangeError (num den : ℕ) : Bool :=
  0x7FF0000000000000 ≤ binary64 num den ||
    (num * 2 ^ 1076 < den * (2 ^ 54 - 1) && num * 2 ^ 1074 % den ≠ 0)

/-- What a floating-point literal denotes. -/
inductive FloatLiteral where
  | infinity
  /-- with the number in the parentheses after the name -/
  | nan (mant : ℕ)
  | ratio (num den : ℕ)

/-- Digits with at most one point among them: those before it, those after it, and the length. -/
def scanMantissa (isDigit : Char → Bool) (s : Text) : Text × Text × ℕ :=
  let whole := s.takeWhile isDigit
  match s.dropWhile isDigit with
  | '.' :: rest =>
    let fraction := rest.takeWhile isDigit
    if whole = [] ∧ fraction = [] then ([], [], 0)
    else (whole, fraction, whole.length + 1 + fraction.length)
  | _ => (whole, [], whole.length)

/-- An optional exponent part and its length; without digits it is no exponent part. -/
def scanExponent (mark : Char) (s : Text) : ℤ × ℕ :=
  match s with
  | c :: rest =>
    let (neg, signs, rest) := scanSign rest
    let digits := rest.takeWhile Char.isDigit
    if c.toLower = mark ∧ digits ≠ [] then
      (signed neg (ofDigits 10 digits), 1 + signs + digits.length)
    else (0, 0)
  | [] => (0, 0)

/-- `mantissa * base ^ exponent`. -/
def scaled (base mantissa : ℕ) (exponent : ℤ) : FloatLiteral :=
  .ratio (mantissa * base ^ exponent.toNat) (base ^ (-exponent).toNat)

/-- `strtoull(s, &end, 0)` without a limit on the number, and the characters it reads. -/
def scanUnsigned (s : Text) : ℕ × ℕ :=
  let read (base skipped : ℕ) (digits : Text) := (ofDigits base digits, skipped + digits.length)
  match s with
  | '0' :: c :: rest =>
    let hex := rest.takeWhile isHexDigit
    if c.toLower = 'x' then if hex = [] then (0, 1) else read 16 2 hex
    else read 8 0 (s.takeWhile fun c => '0' ≤ c && c ≤ '7')
  | _ => read 10 0 (s.takeWhile Char.isDigit)

/-- What comes after the name of `nan(...)`: the number in there and the length. A number of more
than 64 bits counts whether or not something comes after it, since `errno` has been set. -/
def scanNan (s : Text) : ℕ × ℕ :=
  match s with
  | '(' :: rest =>
    let chars := rest.takeWhile fun c => c.isAlphanum || c = '_'
    if (rest.drop chars.length).head? = some ')' then
      let (mant, length) := scanUnsigned chars
      (if length = chars.length ∨ 2 ^ 64 ≤ mant then mant else 0, chars.length + 2)
    else (0, 0)
  | _ => (0, 0)

/-- The literal at the start of `s` and its length, without white space or sign before it. -/
def scanFloat (s : Text) : Option (FloatLiteral × ℕ) :=
  let lower := toLower s
  if "infinity".toList.isPrefixOf lower then some (.infinity, 8)
  else if "inf".toList.isPrefixOf lower then some (.infinity, 3)
  else if "nan".toList.isPrefixOf lower then
    let (mant, length) := scanNan (s.drop 3)
    some (.nan mant, 3 + length)
  else
    let (hexWhole, hexFraction, hexLength) := scanMantissa isHexDigit (s.drop 2)
    if "0x".toList.isPrefixOf lower ∧ hexLength ≠ 0 then
      let (exponent, length) := scanExponent 'p' (s.drop (2 + hexLength))
      some (scaled 2 (ofDigits 16 (hexWhole ++ hexFraction)) (exponent - 4 * hexFraction.length),
        2 + hexLength + length)
    else
      let (whole, fraction, mantissaLength) := scanMantissa Char.isDigit s
      if mantissaLength = 0 then none
      else
        let (exponent, length) := scanExponent 'e' (s.drop mantissaLength)
        some (scaled 10 (ofDigits 10 (whole ++ fraction)) (exponent - fraction.length),
          mantissaLength + length)

/-- A double from its sign and the rest of its bits. -/
def ofMagnitude (neg : Bool) (bits : ℕ) : Double :=
  ⟨.ofNat (if neg then 2 ^ 63 + bits else bits)⟩

/-- `std::stod(s, &pos)`: the number and `pos`. -/
def stod (s : Text) : Except ConversionError (Double × ℕ) :=
  let (neg, signs, literal) := scanSign (s.dropWhile isSpace)
  let skipped := (s.takeWhile isSpace).length + signs
  match scanFloat literal with
  | none                     => .error .invalidArgument
  | some (.infinity, length) => .ok (ofMagnitude neg 0x7FF0000000000000, skipped + length)
  | some (.nan mant, length) =>
    if 2 ^ 64 ≤ mant then .error .outOfRange
    else .ok (ofMagnitude neg (0x7FF8000000000000 + mant % 2 ^ 51), skipped + length)
  | some (.ratio num den, length) =>
    if isRangeError num den then .error .outOfRange
    else .ok (ofMagnitude neg (binary64 num den), skipped + length)

end Text
