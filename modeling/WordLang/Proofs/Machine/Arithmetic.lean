import Mathlib.Data.Nat.Bitwise
import WordLang.Machine.Step

/-! Words and their patterns. What the operations on rows of bits make of the pattern of a word is
the pattern of a word again, and is said here in the arithmetic of integers. -/
namespace WordLang

namespace Word

/-- A word as an unsigned integer. -/
def pattern (w : Word) : Int := (w.toNat : Int)

theorem pattern_bounds (w : Word) : 0 ≤ w.pattern ∧ w.pattern < 2 ^ 64 := by
  have := w.isLt
  rw [pattern]
  omega

theorem toInt_bounds (w : Word) : -2 ^ 63 ≤ w.toInt ∧ w.toInt < 2 ^ 63 :=
  ⟨BitVec.le_toInt w, BitVec.toInt_lt⟩

/-- An integer wraps to the word that it is congruent to. -/
theorem toNat_ofInt (n : Int) : ((Word.ofInt n).toNat : Int) = n % 2 ^ 64 := by
  rw [Word.ofInt, BitVec.toNat_ofInt]
  exact Int.toNat_of_nonneg (Int.emod_nonneg n (by decide))

theorem ofInt_pattern (w : Word) : Word.ofInt w.pattern = w := by
  rw [pattern, Word.ofInt, BitVec.ofInt_natCast, BitVec.ofNat_toNat, BitVec.setWidth_eq]

theorem ofInt_toInt (w : Word) : Word.ofInt w.toInt = w := BitVec.ofInt_toInt

theorem ofInt_add (m n : Int) : Word.ofInt (m + n) = Word.ofInt m + Word.ofInt n :=
  BitVec.ofInt_add m n

theorem ofInt_sub (m n : Int) : Word.ofInt (m - n) = Word.ofInt m - Word.ofInt n := by
  rw [Int.sub_eq_add_neg, ofInt_add, BitVec.sub_eq_add_neg]
  exact congrArg _ BitVec.ofInt_neg

theorem ofInt_mul (m n : Int) : Word.ofInt (m * n) = Word.ofInt m * Word.ofInt n :=
  BitVec.ofInt_mul m n

theorem pattern_inj {v w : Word} : v.pattern = w.pattern ↔ v = w := by
  refine ⟨fun h => ?_, congrArg _⟩
  rw [← ofInt_pattern v, h, ofInt_pattern]

/-- The sign of a word is read off its pattern. -/
theorem toInt_eq_pattern (w : Word) :
    w.toInt = if 2 ^ 63 ≤ w.pattern then w.pattern - 2 ^ 64 else w.pattern := by
  rw [BitVec.toInt_eq_toNat_cond, pattern]
  split <;> split <;> omega

end Word

/-! ### Rows of bits -/

namespace Bits

theorem and_two_pow_sub_one (n : Int) (k : Nat) : and n ((2 ^ k - 1 : Nat) : Int) = n % 2 ^ k := by
  have hpos : 0 < 2 ^ k := Nat.two_pow_pos k
  cases n with
  | ofNat m =>
    show ((m &&& 2 ^ k - 1 : Nat) : Int) = (m : Int) % 2 ^ k
    rw [Nat.and_two_pow_sub_one_eq_mod]
    push_cast
    rfl
  | negSucc m =>
    show ((diff (2 ^ k - 1) m : Nat) : Int) = Int.negSucc m % 2 ^ k
    rw [diff, Nat.and_comm, Nat.and_two_pow_sub_one_eq_mod]
    have hlt := Nat.mod_lt m hpos
    have hcast : ((2 ^ k : Nat) : Int) = 2 ^ k := by push_cast; rfl
    rw [← hcast, Int.negSucc_emod m (by omega)]
    omega

theorem and_wordMask (n : Int) : and n wordMask = (Word.ofInt n).pattern := by
  rw [Word.pattern, Word.toNat_ofInt]
  exact and_two_pow_sub_one n 64

theorem and_byteMask (n : Int) : and n byteMask = (Word.ofInt n &&& 0xff).pattern := by
  have hbyte : (Word.ofInt n).toNat &&& 2 ^ 8 - 1 = (Word.ofInt n).toNat % 2 ^ 8 :=
    Nat.and_two_pow_sub_one_eq_mod _ 8
  have hword := Word.toNat_ofInt n
  show _ = (((Word.ofInt n).toNat &&& 2 ^ 8 - 1 : Nat) : Int)
  rw [hbyte]
  exact (and_two_pow_sub_one n 8).trans (by omega)

/-- The highest bit of a number that has no higher one is read off its size. -/
theorem and_two_pow_ne_zero {m k : Nat} (h : m < 2 ^ (k + 1)) :
    and m ((2 ^ k : Nat) : Int) ≠ 0 ↔ 2 ^ k ≤ m := by
  show ((m &&& 2 ^ k : Nat) : Int) ≠ 0 ↔ _
  have hpos : 0 < 2 ^ k := Nat.two_pow_pos k
  have hdiv : m / 2 ^ k < 2 := Nat.div_lt_of_lt_mul (by rw [← pow_succ]; exact h)
  rw [Int.natCast_ne_zero, Nat.and_two_pow, Nat.testBit_eq_decide_div_mod_eq,
    Nat.mod_eq_of_lt hdiv, ← Nat.one_le_div_iff hpos]
  generalize m / 2 ^ k = q at hdiv
  obtain rfl | rfl : q = 0 ∨ q = 1 := by omega
  · simp
  · simp

theorem and_signBit (w : Word) : and w.pattern signBit ≠ 0 ↔ 2 ^ 63 ≤ w.pattern := by
  have h := and_two_pow_ne_zero (k := 63) w.isLt
  rw [Word.pattern]
  exact h.trans (by omega)

/-- Two rows that share no place are put together by addition. -/
theorem or_shiftLeft {low k : Nat} (high : Nat) (h : low < 2 ^ k) :
    or ((high : Int) <<< k) low = high * 2 ^ k + low := by
  have hshift : (high : Int) <<< k = ((high <<< k : Nat) : Int) := rfl
  rw [hshift]
  show ((high <<< k ||| low : Nat) : Int) = _
  rw [← Nat.shiftLeft_add_eq_or_of_lt h, Nat.shiftLeft_eq]
  push_cast
  rfl

theorem and_highBits {m : Nat} (h : m < 2 ^ 64) : m &&& 0xffffffffffffff00 = (m / 2 ^ 8) <<< 8 := by
  refine Nat.eq_of_testBit_eq fun i => ?_
  have hmask : 0xffffffffffffff00 = (2 ^ 56 - 1) <<< 8 := by decide
  rw [hmask, Nat.testBit_and, Nat.testBit_shiftLeft, Nat.testBit_two_pow_sub_one,
    Nat.testBit_shiftLeft, ← Nat.shiftRight_eq_div_pow, Nat.testBit_shiftRight]
  by_cases hlow : 8 ≤ i
  · by_cases hhigh : i < 64
    · simp [hlow, show i - 8 < 56 by omega, show 8 + (i - 8) = i by omega]
    · have hzero : m.testBit i = false :=
        Nat.testBit_lt_two_pow (Nat.lt_of_lt_of_le h (Nat.pow_le_pow_right (by decide) (by omega)))
      simp [hlow, hzero, show 8 + (i - 8) = i by omega]
  · simp [hlow]

/-- The low byte of a word is exchanged. -/
theorem or_lowByte (w : Word) (n : Int) :
    or (and (and w.pattern (~~~byteMask)) wordMask) (and n byteMask) =
      ((w &&& ~~~0xff) ||| (Word.ofInt n &&& 0xff)).pattern := by
  have hcut : and w.pattern (~~~byteMask) = (w &&& ~~~0xff).pattern := by
    show ((diff w.toNat 255 : Nat) : Int) = ((w.toNat &&& 0xffffffffffffff00 : Nat) : Int)
    rw [and_highBits w.isLt, diff, Nat.shiftLeft_eq,
      show w.toNat &&& 255 = w.toNat % 2 ^ 8 from Nat.and_two_pow_sub_one_eq_mod _ 8]
    omega
  rw [hcut, and_wordMask, Word.ofInt_pattern, and_byteMask]
  rfl

end Bits

theorem toSigned_eq (n : Int) : toSigned n = (Word.ofInt n).toInt := by
  rw [toSigned, Bits.and_wordMask, Word.toInt_eq_pattern]
  simp only [Bits.and_signBit]
  rfl

/-! ### Division -/

namespace Action

/-- The sizes of two integers, divided, and the sign of the quotient put to it last. -/
theorem tdiv_eq_sizes (n d : Int) :
    (if decide (n < 0) != decide (d < 0) then -((n.natAbs : Int) / (d.natAbs : Int))
      else (n.natAbs : Int) / (d.natAbs : Int)) = n.tdiv d := by
  have hsize : (n.natAbs : Int) / (d.natAbs : Int) = (n.natAbs : Int).tdiv (d.natAbs : Int) :=
    (Int.tdiv_eq_ediv_of_nonneg (Int.natCast_nonneg _)).symm
  rw [hsize]
  by_cases hn : n < 0 <;> by_cases hd : d < 0
  · rw [Int.ofNat_natAbs_of_nonpos (Int.le_of_lt hn), Int.ofNat_natAbs_of_nonpos (Int.le_of_lt hd)]
    simp [hn, hd, Int.neg_tdiv, Int.tdiv_neg]
  · rw [Int.ofNat_natAbs_of_nonpos (Int.le_of_lt hn), Int.natAbs_of_nonneg (Int.not_lt.mp hd)]
    simp [hn, hd, Int.neg_tdiv]
  · rw [Int.natAbs_of_nonneg (Int.not_lt.mp hn), Int.ofNat_natAbs_of_nonpos (Int.le_of_lt hd)]
    simp [hn, hd, Int.tdiv_neg]
  · rw [Int.natAbs_of_nonneg (Int.not_lt.mp hn), Int.natAbs_of_nonneg (Int.not_lt.mp hd)]
    simp [hn, hd]

/-- The double word of two halves, with its sign, from its row of bits. -/
theorem signed_double (high low : Word) :
    (let bits := Bits.or ((high.toNat : Int) <<< (64 : Nat)) low.toNat
      if Bits.and bits ((1 : Int) <<< (127 : Nat)) ≠ 0 then bits - (1 : Int) <<< (128 : Nat)
      else bits) = high.toInt * 0x10000000000000000 + low.toNat := by
  have hhigh := high.isLt
  have hlow := low.isLt
  have hbits : Bits.or ((high.toNat : Int) <<< (64 : Nat)) low.toNat =
      ((high.toNat * 2 ^ 64 + low.toNat : Nat) : Int) := by
    rw [Bits.or_shiftLeft _ low.isLt]
    push_cast
    rfl
  have hsign := Bits.and_two_pow_ne_zero (m := high.toNat * 2 ^ 64 + low.toNat) (k := 127) (by omega)
  simp only [hbits]
  rw [high.toInt_eq_pattern, Word.pattern]
  split
  · rename_i h
    have := hsign.mp h
    rw [if_pos (by omega), Int.shiftLeft_eq]
    omega
  · rename_i h
    have := mt hsign.mpr h
    rw [if_neg (by omega)]
    omega

/-- Division truncates: the quotient is rounded toward zero, whatever the signs. -/
theorem divideDouble_eq (high low : Word) (divisor : Int) :
    divideDouble high.pattern low.pattern divisor =
      if divisor = 0 then .error .divisionByZero
      else
        let dividend := high.toInt * 0x10000000000000000 + low.toNat
        let quotient := dividend.tdiv divisor
        if quotient < -0x8000000000000000 ∨ 0x8000000000000000 ≤ quotient then
          .error .divisionOverflow
        else .ok ((Word.ofInt quotient).pattern,
          (Word.ofInt (dividend - quotient * divisor)).pattern) := by
  have hdouble := signed_double high low
  simp only at hdouble
  rw [divideDouble, Word.pattern, Word.pattern]
  split
  · rfl
  simp only
  rw [hdouble, tdiv_eq_sizes, Bits.and_wordMask, Bits.and_wordMask]
  split
  · rename_i h
    rw [if_neg (by simp only [signBit] at h; omega)]
  · rename_i h
    rw [if_pos (by simp only [signBit] at h; omega)]

theorem divide_eq (high low : Word) (divisor : Int) :
    divide high low divisor =
      if divisor = 0 then .error .divisionByZero
      else
        let dividend := high.toInt * 0x10000000000000000 + low.toNat
        let quotient := dividend.tdiv divisor
        if quotient < -0x8000000000000000 ∨ 0x8000000000000000 ≤ quotient then
          .error .divisionOverflow
        else .ok (Word.ofInt quotient, Word.ofInt (dividend - quotient * divisor)) := by
  have h := divideDouble_eq high low divisor
  rw [Word.pattern, Word.pattern] at h
  rw [divide, h]
  split
  · rfl
  simp only
  split
  · rfl
  · simp only [Except.map, Word.ofInt_pattern]

/-- What a division leaves are patterns of words. -/
theorem divideDouble_eq_map (high low : Word) (divisor : Int) :
    divideDouble high.pattern low.pattern divisor =
      (divide high low divisor).map fun p => (p.1.pattern, p.2.pattern) := by
  rw [divideDouble_eq, divide_eq]
  split
  · rfl
  simp only
  split <;> rfl

end Action

end WordLang
