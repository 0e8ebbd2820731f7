import Mathlib.Tactic.Ring

/-!
# Little-endian words in a list of bytes

`toLE w n` is the `w`-byte little-endian form of `n`, and `ofLE` reads a byte list back as a
natural number. On lists of the right width the two are inverse to each other, so a word
of a fixed width is the same thing as its bytes.
-/

namespace Bytes

/-- The `w` low bytes of `n`, least significant first. -/
def toLE : ℕ → ℕ → List UInt8
  | 0, _     => []
  | w + 1, n => UInt8.ofNat n :: toLE w (n / 256)

/-- The number whose bytes, least significant first, are the given ones. -/
def ofLE : List UInt8 → ℕ
  | []      => 0
  | b :: bs => b.toNat + 256 * ofLE bs

@[simp] lemma toLE_zero (n : ℕ) : toLE 0 n = [] := rfl

@[simp] lemma toLE_succ (w n : ℕ) : toLE (w + 1) n = UInt8.ofNat n :: toLE w (n / 256) := rfl

@[simp] lemma ofLE_nil : ofLE [] = 0 := rfl

@[simp] lemma ofLE_cons (b : UInt8) (bs : List UInt8) :
    ofLE (b :: bs) = b.toNat + 256 * ofLE bs := rfl

@[simp] lemma length_toLE (w n : ℕ) : (toLE w n).length = w := by
  induction w generalizing n with
  | zero => rfl
  | succ w ih => simp [ih]

/-- Reading back the bytes of `n` gives `n` up to the bits that do not fit. -/
lemma ofLE_toLE (w n : ℕ) : ofLE (toLE w n) = n % 256 ^ w := by
  induction w generalizing n with
  | zero => simp [Nat.mod_one]
  | succ w ih =>
    rw [toLE_succ, ofLE_cons, ih, UInt8.toNat_ofNat', pow_succ' 256 w, Nat.mod_mul]

lemma ofLE_lt (bs : List UInt8) : ofLE bs < 256 ^ bs.length := by
  induction bs with
  | nil => simp
  | cons b bs ih =>
    rw [ofLE_cons, List.length_cons, pow_succ']
    have hb := b.toNat_lt
    omega

/-- A byte list is the little-endian form of the number it denotes. -/
lemma toLE_ofLE (bs : List UInt8) : toLE bs.length (ofLE bs) = bs := by
  induction bs with
  | nil => rfl
  | cons b bs ih =>
    have hb := b.toNat_lt
    rw [List.length_cons, toLE_succ, ofLE_cons]
    congr 1
    · apply UInt8.toNat_inj.mp
      rw [UInt8.toNat_ofNat']
      omega
    · rw [show (b.toNat + 256 * ofLE bs) / 256 = ofLE bs by omega, ih]

end Bytes
