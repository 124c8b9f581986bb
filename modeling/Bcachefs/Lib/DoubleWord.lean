import Mathlib
import Bcachefs.Lib.WordStream

-- Two 64-bit words read as one 128-bit number, and what a portable 128-bit type
-- builds from them: add with carry, subtract with borrow, shifts across the word
-- boundary, and long division in 32-bit digits.
namespace DoubleWord

open WordStream

def value (hi lo : UInt64) : Nat := hi.toNat * 2^64 + lo.toNat

theorem value_lt (hi lo : UInt64) : value hi lo < 2^128 := by
  have := hi.toNat_lt
  have := lo.toNat_lt
  unfold value
  omega

-- After c = a + b, the test c < a is the carry out of the word.
theorem carry_toNat (a b : UInt64) :
    (if a + b < a then (1 : UInt64) else 0).toNat = (a.toNat + b.toNat) / 2^64 := by
  have := a.toNat_lt
  have := b.toNat_lt
  by_cases wraps : 2^64 ≤ a.toNat + b.toNat
  · have lt : a + b < a := by rw [UInt64.lt_iff_toNat_lt,UInt64.toNat_add]; omega
    rw [if_pos lt,UInt64.toNat_one]
    omega
  · have ge : ¬ a + b < a := by rw [UInt64.lt_iff_toNat_lt,UInt64.toNat_add]; omega
    rw [if_neg ge,UInt64.toNat_zero]
    omega

-- After c = a - b, the test c > a is the borrow: it holds exactly when b > a.
theorem borrow_toNat (a b : UInt64) :
    (if a - b > a then (1 : UInt64) else 0).toNat = if a.toNat < b.toNat then 1 else 0 := by
  have := a.toNat_lt
  have := b.toNat_lt
  by_cases below : a.toNat < b.toNat
  · have gt : a - b > a := by rw [gt_iff_lt,UInt64.lt_iff_toNat_lt,UInt64.toNat_sub]; omega
    rw [if_pos gt,if_pos below,UInt64.toNat_one]
  · have le : ¬ a - b > a := by rw [gt_iff_lt,UInt64.lt_iff_toNat_lt,UInt64.toNat_sub]; omega
    rw [if_neg le,if_neg below,UInt64.toNat_zero]

theorem value_add (ahi alo bhi blo : UInt64) :
    value (ahi + bhi + if alo + blo < alo then 1 else 0) (alo + blo) = (value ahi alo + value bhi blo) % 2^128 := by
  have carry := carry_toNat alo blo
  have := alo.toNat_lt
  have := blo.toNat_lt
  unfold value
  rw [UInt64.toNat_add,UInt64.toNat_add,UInt64.toNat_add,carry]
  omega

theorem value_sub (ahi alo bhi blo : UInt64) :
    value (ahi - bhi - if alo - blo > alo then 1 else 0) (alo - blo) =
      (value ahi alo + 2^128 - value bhi blo) % 2^128 := by
  have borrow := borrow_toNat alo blo
  have := ahi.toNat_lt
  have := bhi.toNat_lt
  have := alo.toNat_lt
  have := blo.toNat_lt
  unfold value
  rw [UInt64.toNat_sub,UInt64.toNat_sub,UInt64.toNat_sub,borrow]
  split <;> omega

theorem value_shiftLeft (hi lo : UInt64) {s : Nat} (pos : 0 < s) (small : s < 64) :
    value ((hi <<< UInt64.ofNat s) ||| (lo >>> UInt64.ofNat (64 - s))) (lo <<< UInt64.ofNat s) =
      value hi lo * 2^s % 2^128 := by
  have whole : 2^s * 2^(64 - s) = 2^64 := by rw [← Nat.pow_add]; congr 1; omega
  have high : (hi <<< UInt64.ofNat s).toNat = 2^s * (hi.toNat % 2^(64 - s)) := by
    rw [toNat_shiftLeft_lt _ small,Nat.mul_comm,← whole,Nat.mul_mod_mul_left]
  have carried : (lo >>> UInt64.ofNat (64 - s)).toNat = lo.toNat / 2^(64 - s) := toNat_shiftRight_lt _ (by omega)
  have carriedLt : lo.toNat / 2^(64 - s) < 2^s := by
    rw [Nat.div_lt_iff_lt_mul (Nat.two_pow_pos _),whole]
    exact lo.toNat_lt
  have low : (lo <<< UInt64.ofNat s).toNat = 2^s * (lo.toNat % 2^(64 - s)) := by
    rw [toNat_shiftLeft_lt _ small,Nat.mul_comm,← whole,Nat.mul_mod_mul_left]
  have joined : ((hi <<< UInt64.ofNat s) ||| (lo >>> UInt64.ofNat (64 - s))).toNat =
      2^s * (hi.toNat % 2^(64 - s)) + lo.toNat / 2^(64 - s) := by
    rw [toNat_or_low _ _ (by rw [high]; exact Nat.mul_mod_right _ _) (carried ▸ carriedLt),high,carried]
  -- Split both words at bit 64 - s: what stays in each and what moves up.
  obtain ⟨x,y,xLt,hiEq⟩ : ∃ x y, x < 2^(64 - s) ∧ hi.toNat = 2^(64 - s) * y + x :=
    ⟨_,_,Nat.mod_lt _ (Nat.two_pow_pos _),(Nat.div_add_mod _ _).symm⟩
  obtain ⟨r,q,rLt,loEq⟩ : ∃ r q, r < 2^(64 - s) ∧ lo.toNat = 2^(64 - s) * q + r :=
    ⟨_,_,Nat.mod_lt _ (Nat.two_pow_pos _),(Nat.div_add_mod _ _).symm⟩
  have xMod : hi.toNat % 2^(64 - s) = x := by rw [hiEq,Nat.mul_add_mod,Nat.mod_eq_of_lt xLt]
  have rMod : lo.toNat % 2^(64 - s) = r := by rw [loEq,Nat.mul_add_mod,Nat.mod_eq_of_lt rLt]
  have qDiv : lo.toNat / 2^(64 - s) = q := by
    rw [loEq,Nat.mul_add_div (Nat.two_pow_pos _),Nat.div_eq_of_lt rLt,Nat.add_zero]
  have expand : value hi lo * 2^s = y * 2^128 + ((2^s * x + q) * 2^64 + 2^s * r) := by
    rw [value,hiEq,loEq,show (2:Nat)^128 = 2^64 * 2^64 by norm_num,← whole]
    ring
  have wordLt : 2^s * x + q < 2^64 := by
    have : 2^s * x + 2^s ≤ 2^s * 2^(64 - s) := by rw [← Nat.mul_succ]; exact Nat.mul_le_mul_left _ xLt
    rw [qDiv] at carriedLt
    omega
  have restLt : 2^s * r < 2^64 := whole ▸ Nat.mul_lt_mul_of_pos_left rLt (Nat.two_pow_pos _)
  rw [value,joined,low,xMod,rMod,qDiv,expand,Nat.mul_comm y,Nat.mul_add_mod]
  symm
  apply Nat.mod_eq_of_lt
  omega

theorem value_shiftLeft_word (hi lo : UInt64) {k : Nat} (small : k < 64) :
    value (lo <<< UInt64.ofNat k) 0 = value hi lo * 2^(64 + k) % 2^128 := by
  have expand : value hi lo * 2^(64 + k) = hi.toNat * 2^k * 2^128 + lo.toNat * 2^k * 2^64 := by
    rw [value,Nat.pow_add,show (2:Nat)^128 = 2^64 * 2^64 by norm_num]
    ring
  rw [value,toNat_shiftLeft_lt _ small,UInt64.toNat_zero,Nat.add_zero,expand,Nat.mul_add_mod_self_right,
    show (2:Nat)^128 = 2^64 * 2^64 by norm_num,Nat.mul_mod_mul_right]

theorem and_high_mask {x w k : Nat} (le : k ≤ w) (small : x < 2^w) : x &&& (2^w - 2^k) = x / 2^k * 2^k := by
  have maskBits : ∀ j, (2^w - 2^k).testBit j = decide (k ≤ j ∧ j < w) := by
    intro j
    rw [show 2^w - 2^k = (2^(w - k) - 1) * 2^k by rw [Nat.sub_mul,← Nat.pow_add,Nat.sub_add_cancel le,Nat.one_mul],
      Nat.testBit_mul_two_pow,Nat.testBit_two_pow_sub_one]
    by_cases h : k ≤ j <;> simp [h]
    omega
  apply Nat.eq_of_testBit_eq
  intro j
  rw [Nat.testBit_and,maskBits,Nat.testBit_mul_two_pow,Nat.testBit_div_two_pow]
  by_cases low : k ≤ j
  · rw [Nat.sub_add_cancel low]
    by_cases high : j < w
    · simp [low,high]
    · have clear : x.testBit j = false :=
        Nat.testBit_lt_two_pow (lt_of_lt_of_le small (Nat.pow_le_pow_right (by decide) (by omega)))
      simp [high,clear]
  · simp [low]

theorem div_digits {x1 x2 x3 d q1 q2 q3 r1 r2 r3 : Nat} (b : Nat) (first : x1 = q1 * d + r1)
    (second : (x2 + r1) * b = q2 * d + r2) (third : x3 + r2 * b = q3 * d + r3) (rem : r3 < d) :
    ((x1 + x2) * b * b + x3) / d = q1 * b * b + q2 * b + q3 := by
  have split : (x1 + x2) * b * b + x3 = d * (q1 * b * b + q2 * b + q3) + r3 :=
    calc (x1 + x2) * b * b + x3 = q1 * d * b * b + (x2 + r1) * b * b + x3 := by rw [first]; ring
      _ = q1 * d * b * b + (q2 * d + r2) * b + x3 := by rw [second]
      _ = q1 * d * b * b + q2 * d * b + (x3 + r2 * b) := by ring
      _ = q1 * d * b * b + q2 * d * b + (q3 * d + r3) := by rw [third]
      _ = d * (q1 * b * b + q2 * b + q3) + r3 := by ring
  rw [split,Nat.mul_add_div (by omega),Nat.div_eq_of_lt rem,Nat.add_zero]

-- The long division of a 128-bit n by d in 32-bit digits keeps each partial dividend
-- in one 64-bit word: the second one (the middle digit with the first remainder above
-- it) and the third (the low word with the second remainder shifted into its top half).
def DigitsFit (n d : Nat) : Prop :=
  let hi := n / 2^64
  let r1 := hi / 2^32 * 2^32 % d
  let r2 := (hi % 2^32 + r1) * 2^32 % d
  (hi % 2^32 + r1) * 2^32 < 2^64 ∧ n % 2^64 + r2 * 2^32 < 2^64

instance (n d : Nat) : Decidable (DigitsFit n d) := inferInstanceAs (Decidable (_ ∧ _))

theorem toNat_toUInt64 (x : Int64) : (x.toUInt64.toNat : Int) = x.toInt % 2^64 := by
  have bits : x.toInt = (x.toUInt64.toNat : Int).bmod (2^64) := by
    rw [← Int64.toInt_toBitVec,BitVec.toInt_eq_toNat_bmod]
    rfl
  have := x.toUInt64.toNat_lt
  rw [bits,show (2:Int)^64 = ((2^64 : Nat) : Int) by norm_num,Int.bmod_emod]
  omega

theorem toInt_toInt64 (u : UInt64) : u.toInt64.toInt = (u.toNat : Int).bmod (2^64) := by
  rw [← Int64.toInt_toBitVec,BitVec.toInt_eq_toNat_bmod]
  rfl

theorem bmod_of_lt {x : Int} (nonneg : 0 ≤ x) (small : x < 2^63) : x.bmod (2^64) = x :=
  Int.bmod_eq_of_le (by norm_num; omega) (by norm_num; omega)

theorem toNat_shiftRight_32 (x : UInt64) : (x >>> 32).toNat = x.toNat / 2^32 := by
  rw [UInt64.toNat_shiftRight,show (32 : UInt64).toNat % 64 = 32 from rfl,Nat.shiftRight_eq_div_pow]

theorem toNat_shiftLeft_32 (x : UInt64) : (x <<< 32).toNat = x.toNat * 2^32 % 2^64 := by
  rw [UInt64.toNat_shiftLeft,show (32 : UInt64).toNat % 64 = 32 from rfl,Nat.shiftLeft_eq]

theorem toNat_and_low32 (x : UInt64) : (x &&& 0xFFFFFFFF).toNat = x.toNat % 2^32 := by
  rw [UInt64.toNat_and,show (0xFFFFFFFF : UInt64).toNat = 2^32 - 1 from rfl,Nat.and_two_pow_sub_one_eq_mod]

theorem toNat_and_high32 (x : UInt64) : (x &&& ((0xFFFFFFFF : UInt64) <<< 32)).toNat = x.toNat / 2^32 * 2^32 := by
  rw [UInt64.toNat_and,show ((0xFFFFFFFF : UInt64) <<< 32).toNat = 2^64 - 2^32 by decide,
    and_high_mask (by decide) x.toNat_lt]

theorem toNat_mul_halves {a b : UInt64} (ha : a.toNat < 2^32) (hb : b.toNat < 2^32) :
    (a * b).toNat = a.toNat * b.toNat := by
  rw [UInt64.toNat_mul,Nat.mod_eq_of_lt (by simpa using Nat.mul_lt_mul'' ha hb)]

end DoubleWord
