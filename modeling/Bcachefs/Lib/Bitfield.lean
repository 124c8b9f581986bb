import Mathlib

namespace Bitfield

-- Bit fields of a 64-bit word, as the BITMASK macros of C headers declare them: bits
-- offset up to stop, read as a number and replaced by the low stop - offset bits of x.
-- The width stays below 64, where ~(~0ULL << width) is defined.
def mask (width : Nat) : UInt64 := ~~~((~~~0 : UInt64) <<< width.toUInt64)

def get (w : UInt64) (offset stop : Nat) : UInt64 := (w >>> offset.toUInt64) &&& mask (stop - offset)

def set (w : UInt64) (offset stop : Nat) (x : UInt64) : UInt64 :=
  (w &&& ~~~(mask (stop - offset) <<< offset.toUInt64)) ||| ((x &&& mask (stop - offset)) <<< offset.toUInt64)

section Bits

theorem toNat_shift {n : Nat} (lt : n < 64) : n.toUInt64.toNat % 64 = n := by
  rw [Nat.toUInt64_eq,UInt64.toNat_ofNat']
  omega

theorem toNat_mask {width : Nat} (lt : width < 64) : (mask width).toNat = 2 ^ width - 1 := by
  have pos := Nat.one_le_two_pow (n := width)
  have le : 2 ^ width ≤ 2 ^ 64 := Nat.pow_le_pow_right (by decide) (by omega)
  -- ~0 << width is 2 ^ 64 - 2 ^ width: the top 64 - width bits.
  have shifted : (2 ^ 64 - 1) * 2 ^ width % 2 ^ 64 = 2 ^ 64 - 2 ^ width := by
    have split : (2 ^ 64 - 1) * 2 ^ width = 2 ^ 64 * (2 ^ width - 1) + (2 ^ 64 - 2 ^ width) := by
      rw [Nat.sub_one_mul,Nat.mul_sub_one]
      omega
    rw [split,Nat.mul_add_mod,Nat.mod_eq_of_lt (by omega)]
  unfold mask
  rw [UInt64.toNat_not,UInt64.toNat_shiftLeft,UInt64.toNat_not,toNat_shift lt,Nat.shiftLeft_eq,UInt64.toNat_zero,
    Nat.sub_zero]
  show 2 ^ 64 - 1 - (2 ^ 64 - 1) * 2 ^ width % 2 ^ 64 = _
  rw [shifted]
  omega

theorem toNat_shiftAmount {n : Nat} (lt : n < 64) : (n.toUInt64.toBitVec % 64).toNat = n := by
  rw [BitVec.toNat_umod,UInt64.toNat_toBitVec]
  exact toNat_shift lt

theorem testBit_toNat (a : UInt64) (i : Nat) : a.toNat.testBit i = a.toBitVec.getLsbD i := by
  rw [← UInt64.toNat_toBitVec,BitVec.testBit_toNat]

theorem toNat_get (w : UInt64) {offset stop : Nat} (off : offset < 64) (lt : stop - offset < 64) :
    (get w offset stop).toNat = w.toNat / 2 ^ offset % 2 ^ (stop - offset) := by
  unfold get
  rw [UInt64.toNat_and,UInt64.toNat_shiftRight,toNat_shift off,toNat_mask lt,Nat.and_two_pow_sub_one_eq_mod,
    Nat.shiftRight_eq_div_pow]

theorem testBit_get (w : UInt64) {offset stop : Nat} (off : offset < 64) (lt : stop - offset < 64) (i : Nat) :
    (get w offset stop).toNat.testBit i = (decide (i < stop - offset) && w.toNat.testBit (offset + i)) := by
  rw [toNat_get w off lt,Nat.testBit_mod_two_pow,Nat.testBit_div_two_pow,Nat.add_comm]

theorem testBit_set (w x : UInt64) {offset stop : Nat} (off : offset < 64) (lt : stop - offset < 64) (le : stop ≤ 64) (i : Nat) :
    (set w offset stop x).toNat.testBit i = if offset ≤ i ∧ i < stop then x.toNat.testBit (i - offset) else w.toNat.testBit i := by
  have maskBit : ∀ j, (mask (stop - offset)).toBitVec.getLsbD j = decide (j < stop - offset) := by
    intro j
    rw [← testBit_toNat,toNat_mask lt,Nat.testBit_two_pow_sub_one]
  unfold set
  simp only [testBit_toNat,UInt64.toBitVec_or,UInt64.toBitVec_and,UInt64.toBitVec_not,UInt64.toBitVec_shiftLeft,
    BitVec.getLsbD_or,BitVec.getLsbD_and,BitVec.getLsbD_not,BitVec.shiftLeft_eq',BitVec.getLsbD_shiftLeft,maskBit,toNat_shiftAmount off]
  by_cases small : i < 64
  · by_cases below : i < offset
    · simp [small,below,show ¬(offset ≤ i ∧ i < stop) by omega]
    · by_cases inside : i < stop
      · simp [small,below,inside,show offset ≤ i by omega,show i - offset < stop - offset by omega]
      · simp [small,below,inside,show ¬i - offset < stop - offset by omega]
  · simp [small,BitVec.getLsbD_of_ge _ _ (by omega : 64 ≤ i),show ¬(offset ≤ i ∧ i < stop) by omega]

theorem ext_testBit {a b : UInt64} (same : ∀ i, a.toNat.testBit i = b.toNat.testBit i) : a = b :=
  UInt64.toNat_inj.mp (Nat.eq_of_testBit_eq same)

section Fields
variable {offset stop offset' stop' : Nat}

theorem set_set (w x y : UInt64) (off : offset < 64) (lt : stop - offset < 64) (le : stop ≤ 64) :
    set (set w offset stop x) offset stop y = set w offset stop y := by
  apply ext_testBit
  intro i
  rw [testBit_set _ _ off lt le,testBit_set _ _ off lt le,testBit_set _ _ off lt le]
  by_cases inside : offset ≤ i ∧ i < stop
  · rw [if_pos inside,if_pos inside]
  · rw [if_neg inside,if_neg inside,if_neg inside]

theorem set_comm (w x y : UInt64) (off : offset < 64) (lt : stop - offset < 64) (le : stop ≤ 64)
    (off' : offset' < 64) (lt' : stop' - offset' < 64) (le' : stop' ≤ 64) (disjoint : stop ≤ offset') :
    set (set w offset stop x) offset' stop' y = set (set w offset' stop' y) offset stop x := by
  apply ext_testBit
  intro i
  rw [testBit_set _ _ off' lt' le',testBit_set _ _ off lt le,testBit_set _ _ off lt le,testBit_set _ _ off' lt' le']
  by_cases first : offset ≤ i ∧ i < stop
  · rw [if_pos first,if_neg (by omega),if_pos first]
  · rw [if_neg first,if_neg first]

theorem toNat_get_set (w x : UInt64) (off : offset < 64) (lt : stop - offset < 64) (le : stop ≤ 64) :
    (get (set w offset stop x) offset stop).toNat = x.toNat % 2 ^ (stop - offset) := by
  apply Nat.eq_of_testBit_eq
  intro i
  rw [testBit_get _ off lt,testBit_set _ _ off lt le,Nat.testBit_mod_two_pow]
  by_cases inside : i < stop - offset
  · rw [if_pos (by omega),Nat.add_sub_cancel_left]
  · simp [inside]

theorem get_set_of_ge (w x : UInt64) (off : offset < 64) (lt : stop - offset < 64) (le : stop ≤ 64)
    (off' : offset' < 64) (lt' : stop' - offset' < 64) (disjoint : stop' ≤ offset) :
    get (set w offset stop x) offset' stop' = get w offset' stop' := by
  apply ext_testBit
  intro i
  rw [testBit_get _ off' lt',testBit_get _ off' lt',testBit_set _ _ off lt le]
  by_cases inside : i < stop' - offset'
  · rw [if_neg (by omega)]
  · simp [inside]

end Fields

end Bits

end Bitfield
