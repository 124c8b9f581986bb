import Mathlib
import Bcachefs.Lib.DoubleWord

namespace Bcachefs

open DoubleWord

-- u128_u as the portable header defines it outside the kernel: two u64 words.
structure U128U where
  hi : UInt64
  lo : UInt64
deriving DecidableEq, Repr

def U128U.toNat (a : U128U) : Nat := value a.hi a.lo

def u64ToU128 (a : UInt64) : U128U := ⟨0,a⟩

def u128Lo (a : U128U) : UInt64 := a.lo

def u128Hi (a : U128U) : UInt64 := a.hi

def u128Add (a b : U128U) : U128U :=
  let lo := a.lo + b.lo
  ⟨a.hi + b.hi + (if lo < a.lo then 1 else 0),lo⟩

def u128Sub (a b : U128U) : U128U :=
  let lo := a.lo - b.lo
  ⟨a.hi - b.hi - (if lo > a.lo then 1 else 0),lo⟩

-- The shift is an s8; shift & 63 and -shift & 63 are taken after promotion to int.
def u128Shl (i : U128U) (shift : Int8) : U128U :=
  let s := UInt64.ofNat (shift.toInt % 64).toNat
  let t := UInt64.ofNat ((-shift.toInt) % 64).toNat
  if shift.toInt < 64 then ⟨(i.hi <<< s) ||| (i.lo >>> t),i.lo <<< s⟩
  else ⟨i.lo <<< t,0⟩

def u128Square (i : UInt64) : U128U :=
  let h := i >>> 32
  let l := i &&& 0xFFFFFFFF
  let r := u128Shl (u64ToU128 (h * h)) 64
  let r := u128Add r (u128Shl (u64ToU128 (h * l)) 32)
  let r := u128Add r (u128Shl (u64ToU128 (l * h)) 32)
  u128Add r (u64ToU128 (l * l))

def u64sToU128 (hi lo : UInt64) : U128U := u128Add (u128Shl (u64ToU128 hi) 64) (u64ToU128 lo)

-- div64_u64_rem(x, d, &rem) returns x / d and stores x % d in rem; each call reads
-- the rem of the call before it.
def u128Div (n : U128U) (d : UInt64) : U128U :=
  let hi := u128Hi n
  let lo := u128Lo n
  let h := hi &&& ((0xFFFFFFFF : UInt64) <<< 32)
  let l := (hi &&& 0xFFFFFFFF) <<< 32
  let r := u128Shl (u64ToU128 (h / d)) 64
  let rem := h % d
  let r := u128Add r (u128Shl (u64ToU128 ((l + (rem <<< 32)) / d)) 32)
  let rem := (l + (rem <<< 32)) % d
  u128Add r (u64ToU128 ((lo + (rem <<< 32)) / d))

structure MeanAndVariance where
  n : Int64
  sum : Int64
  sumSquares : U128U
deriving DecidableEq, Repr

-- abs() of an s64 is an s64 (-x wraps at the minimum); callers pass it on as a u64.
def s64Abs (x : Int64) : Int64 := if x < 0 then -x else x

def meanAndVarianceUpdate (s : MeanAndVariance) (v : Int64) : MeanAndVariance :=
  ⟨s.n + 1,s.sum + v,u128Add s.sumSquares (u128Square (s64Abs v).toUInt64)⟩

-- div64_u64 takes the s64 sum and count as u64; the quotient goes back as an s64.
def meanAndVarianceGetMean (s : MeanAndVariance) : Int64 :=
  if s.n ≠ 0 then (s.sum.toUInt64 / s.n.toUInt64).toInt64 else 0

def meanAndVarianceGetVariance (s1 : MeanAndVariance) : UInt64 :=
  if s1.n ≠ 0 then
    let s2 := u128Div s1.sumSquares s1.n.toUInt64
    let s3 := (s64Abs (meanAndVarianceGetMean s1)).toUInt64
    u128Lo (u128Sub s2 (u128Square s3))
  else 0

-- A zeroed struct mean_and_variance fed the samples in order.
def meanAndVarianceRun (samples : List Int64) : MeanAndVariance :=
  samples.foldl meanAndVarianceUpdate ⟨0,0,⟨0,0⟩⟩

section U128

theorem U128U.toNat_lt (a : U128U) : a.toNat < 2^128 := value_lt _ _

@[simp] theorem u64ToU128_toNat (a : UInt64) : (u64ToU128 a).toNat = a.toNat := by
  simp [u64ToU128,U128U.toNat,value]

theorem u128Lo_toNat (a : U128U) : (u128Lo a).toNat = a.toNat % 2^64 := by
  have := a.lo.toNat_lt
  simp only [u128Lo,U128U.toNat,value]
  omega

theorem u128Add_toNat (a b : U128U) : (u128Add a b).toNat = (a.toNat + b.toNat) % 2^128 := value_add _ _ _ _

theorem u128Sub_toNat (a b : U128U) : (u128Sub a b).toNat = (a.toNat + 2^128 - b.toNat) % 2^128 :=
  value_sub _ _ _ _

theorem u128Shl_toNat_of_lt (i : U128U) {shift : Int8} (pos : 0 < shift.toInt) (small : shift.toInt < 64) :
    (u128Shl i shift).toNat = i.toNat * 2^shift.toInt.toNat % 2^128 := by
  have s : (shift.toInt % 64).toNat = shift.toInt.toNat := by omega
  have t : ((-shift.toInt) % 64).toNat = 64 - shift.toInt.toNat := by omega
  simp only [u128Shl,if_pos small,s,t]
  exact value_shiftLeft _ _ (by omega) (by omega)

-- From 64 on the high word takes the low one shifted by -shift & 63, which is
-- shift - 64 only at 64 and at 96.
theorem u128Shl_toNat_of_ge (i : U128U) {shift : Int8} (large : 64 ≤ shift.toInt) :
    (u128Shl i shift).toNat = i.toNat * 2^(64 + ((-shift.toInt) % 64).toNat) % 2^128 := by
  simp only [u128Shl,if_neg (Int.not_lt.mpr large)]
  exact value_shiftLeft_word _ _ (by omega)

theorem u128Shl_toNat (i : U128U) {shift : Int8} (pos : 0 < shift.toInt)
    (exact : shift.toInt < 64 ∨ shift.toInt % 32 = 0) :
    (u128Shl i shift).toNat = i.toNat * 2^shift.toInt.toNat % 2^128 := by
  by_cases small : shift.toInt < 64
  · exact u128Shl_toNat_of_lt i pos small
  · have top := shift.toInt_lt
    have width : 64 + ((-shift.toInt) % 64).toNat = shift.toInt.toNat := by omega
    rw [u128Shl_toNat_of_ge i (by omega),width]

-- At shift 0, -shift & 63 is 0 too, so the high word is or-ed with the whole low word;
-- at 65 the low word moves up by 63 bits instead of 1.
theorem u128_shl_by_zero_mixes_words : u128Shl ⟨0,1⟩ 0 = ⟨1,1⟩ := by decide

theorem u128_shl_by_65_moves_too_far : u128Shl ⟨0,1⟩ 65 = ⟨0x8000000000000000,0⟩ := by decide

theorem u128Shl_u64ToU128_32 (x : UInt64) : (u128Shl (u64ToU128 x) 32).toNat = x.toNat * 2^32 := by
  have := x.toNat_lt
  rw [u128Shl_toNat_of_lt _ (by decide) (by decide),u64ToU128_toNat,show (32 : Int8).toInt.toNat = 32 from rfl]
  omega

theorem u128Shl_u64ToU128_64 (x : UInt64) : (u128Shl (u64ToU128 x) 64).toNat = x.toNat * 2^64 := by
  have := x.toNat_lt
  rw [u128Shl_toNat_of_ge _ (by decide),u64ToU128_toNat,show 64 + ((-(64 : Int8).toInt) % 64).toNat = 64 from rfl]
  omega

theorem u128Square_toNat (i : UInt64) : (u128Square i).toNat = i.toNat ^ 2 := by
  have top : i.toNat / 2^32 < 2^32 := by have := i.toNat_lt; omega
  have bottom : i.toNat % 2^32 < 2^32 := Nat.mod_lt _ (by decide)
  have high := toNat_shiftRight_32 i
  have low := toNat_and_low32 i
  have square : i.toNat ^ 2 < 2^128 := by
    have := Nat.pow_lt_pow_left i.toNat_lt (by decide : 2 ≠ 0)
    simpa [← Nat.pow_mul] using this
  -- i = h * 2^32 + l, so i^2 is the four partial products, each in its place.
  have expand : i.toNat ^ 2 = i.toNat / 2^32 * (i.toNat / 2^32) * 2^64 + i.toNat / 2^32 * (i.toNat % 2^32) * 2^32 +
      i.toNat % 2^32 * (i.toNat / 2^32) * 2^32 + i.toNat % 2^32 * (i.toNat % 2^32) := by
    conv => lhs; rw [← Nat.div_add_mod i.toNat (2^32)]
    ring
  simp only [u128Square,u128Add_toNat,u128Shl_u64ToU128_32,u128Shl_u64ToU128_64,u64ToU128_toNat]
  rw [toNat_mul_halves (high ▸ top) (high ▸ top),toNat_mul_halves (high ▸ top) (low ▸ bottom),
    toNat_mul_halves (low ▸ bottom) (high ▸ top),toNat_mul_halves (low ▸ bottom) (low ▸ bottom),high,low]
  omega

theorem u128Div_toNat (n : U128U) {d : UInt64} (pos : 0 < d.toNat) (fits : DigitsFit n.toNat d.toNat) :
    (u128Div n d).toNat = n.toNat / d.toNat := by
  -- The three quotients land at 2^64, 2^32 and 2^0 without wrapping 128 bits.
  have placed : ∀ a b c : Nat, a * 2^32 * 2^32 + b * 2^32 + c < 2^128 →
      ((a * 2^64 + b * 2^32) % 2^128 + c) % 2^128 = a * 2^32 * 2^32 + b * 2^32 + c := by
    intro a b c lt
    omega
  have lowLt := n.lo.toNat_lt
  have whole : n.toNat = n.hi.toNat * 2^64 + n.lo.toNat := rfl
  have hiEq : n.toNat / 2^64 = n.hi.toNat := by omega
  have loEq : n.toNat % 2^64 = n.lo.toNat := by omega
  obtain ⟨middleFits,lowFits⟩ := fits
  simp only [hiEq,loEq] at middleFits lowFits
  simp only [u128Div,u128Hi,u128Lo,u128Add_toNat,u128Shl_u64ToU128_64,u128Shl_u64ToU128_32,u64ToU128_toNat,
    UInt64.toNat_div,UInt64.toNat_mod,UInt64.toNat_add,toNat_shiftLeft_32,toNat_and_high32,toNat_and_low32]
  -- The second and third partial dividends, which DigitsFit keeps inside one word.
  have middle : (n.hi.toNat % 2^32 * 2^32 % 2^64 + n.hi.toNat / 2^32 * 2^32 % d.toNat * 2^32 % 2^64) % 2^64 =
      (n.hi.toNat % 2^32 + n.hi.toNat / 2^32 * 2^32 % d.toNat) * 2^32 := by omega
  rw [middle]
  have low : (n.lo.toNat + (n.hi.toNat % 2^32 + n.hi.toNat / 2^32 * 2^32 % d.toNat) * 2^32 % d.toNat * 2^32 % 2^64) %
      2^64 = n.lo.toNat + (n.hi.toNat % 2^32 + n.hi.toNat / 2^32 * 2^32 % d.toNat) * 2^32 % d.toNat * 2^32 := by
    omega
  rw [low]
  have digits := @div_digits _ (n.hi.toNat % 2^32) n.lo.toNat _ _ _ _ _ _ _ (2^32)
    (Nat.div_add_mod' (n.hi.toNat / 2^32 * 2^32) d.toNat).symm (Nat.div_add_mod' _ d.toNat).symm
    (Nat.div_add_mod' _ d.toNat).symm (Nat.mod_lt _ pos)
  have split : n.toNat = (n.hi.toNat / 2^32 * 2^32 + n.hi.toNat % 2^32) * 2^32 * 2^32 + n.lo.toNat := by
    rw [Nat.div_add_mod',Nat.mul_assoc,← Nat.pow_add]
    rfl
  have bound : n.toNat / d.toNat < 2^128 := lt_of_le_of_lt (Nat.div_le_self _ _) n.toNat_lt
  rw [split,digits] at bound ⊢
  exact placed _ _ _ bound

-- hi = 1, lo = 2^64 - 1, d = 3: the middle step divides 2^32 and leaves 1, and
-- lo + (rem << 32) = 2^64 - 1 + 2^32 wraps to 2^32 - 1.
theorem u128_div_low_digit_wraps :
    ¬ DigitsFit (U128U.toNat ⟨1,0xFFFFFFFFFFFFFFFF⟩) 3 ∧ u128Div ⟨1,0xFFFFFFFFFFFFFFFF⟩ 3 = ⟨0,6148914691236517205⟩ ∧
      U128U.toNat ⟨1,0xFFFFFFFFFFFFFFFF⟩ / 3 = 12297829382473034410 := by
  decide

end U128

section Moments

-- The integer variance floor(S2 / n) - floor(S1 / n)^2 of naturals is never negative:
-- S1^2 <= n * S2 by Cauchy-Schwarz, and the floors keep that order.

theorem sum_sq_le_sq_sum (l : List Nat) : (l.map (· ^ 2)).sum ≤ l.sum ^ 2 := by
  induction l with
  | nil => simp
  | cons x rest ih =>
    simp only [List.map_cons,List.sum_cons]
    nlinarith [Nat.zero_le (x * rest.sum)]

theorem sq_sum_le_length_mul_sum_sq (l : List Nat) : l.sum ^ 2 ≤ l.length * (l.map (· ^ 2)).sum := by
  have cs := @sq_sum_le_card_mul_sum_sq (Fin l.length) Nat _ _ _ _ Finset.univ (fun i => l[i.1])
  rw [Finset.card_univ,Fintype.card_fin,Fin.sum_univ_getElem,Fin.sum_univ_fun_getElem l (· ^ 2)] at cs
  exact cs

theorem floor_mean_sq_le {s1 s2 n : Nat} (cs : s1 ^ 2 ≤ n * s2) : (s1 / n) ^ 2 ≤ s2 / n := by
  rcases Nat.eq_zero_or_pos n with rfl | pos
  · simp
  · apply (Nat.le_div_iff_mul_le pos).mpr
    have below : (s1 / n * n) ^ 2 ≤ n * s2 := le_trans (Nat.pow_le_pow_left (Nat.div_mul_le_self s1 n) 2) cs
    have factored : (s1 / n * n) ^ 2 = n * ((s1 / n) ^ 2 * n) := by ring
    rw [factored] at below
    exact Nat.le_of_mul_le_mul_left below pos

end Moments

section Samples

theorem toNat_s64Abs (x : Int64) : (s64Abs x).toUInt64.toNat = x.toInt.natAbs := by
  have bits := toNat_toUInt64 x
  have low := x.le_toInt
  have high := x.toInt_lt
  unfold s64Abs
  by_cases neg : x < 0
  · rw [Int64.lt_iff_toInt_lt,Int64.toInt_zero] at neg
    rw [if_pos (Int64.lt_iff_toInt_lt.mpr neg),Int64.toUInt64_neg,UInt64.toNat_neg]
    show (2^64 - x.toUInt64.toNat) % 2^64 = x.toInt.natAbs
    omega
  · rw [Int64.lt_iff_toInt_lt,Int64.toInt_zero] at neg
    rw [if_neg (mt Int64.lt_iff_toInt_lt.mp neg)]
    omega

-- What the struct holds after the samples vs: their count and sum as s64, wrapping at
-- 64 bits, and the sum of their squares modulo 2^128.
structure Tracks (s : MeanAndVariance) (vs : List Int64) : Prop where
  count : s.n.toInt = (vs.length : Int).bmod (2^64)
  total : s.sum.toInt = (vs.map Int64.toInt).sum.bmod (2^64)
  squares : s.sumSquares.toNat = (vs.map fun v => v.toInt.natAbs ^ 2).sum % 2^128

theorem tracks_update {s : MeanAndVariance} {vs : List Int64} (tracks : Tracks s vs) (v : Int64) :
    Tracks (meanAndVarianceUpdate s v) (vs ++ [v]) := by
  obtain ⟨count,total,squares⟩ := tracks
  refine ⟨?_,?_,?_⟩
  · rw [meanAndVarianceUpdate,Int64.toInt_add,count,Int64.toInt_one,Int.bmod_add_bmod,List.length_append,
      List.length_singleton,Nat.cast_add,Nat.cast_one]
  · rw [meanAndVarianceUpdate,Int64.toInt_add,total,Int.bmod_add_bmod,List.map_append,List.sum_append,
      List.map_singleton,List.sum_singleton]
  · rw [meanAndVarianceUpdate,u128Add_toNat,squares,u128Square_toNat,toNat_s64Abs,List.map_append,List.sum_append,
      List.map_singleton,List.sum_singleton,Nat.mod_add_mod]

theorem tracks_run (vs : List Int64) : Tracks (meanAndVarianceRun vs) vs := by
  induction vs using List.reverseRecOn with
  | nil => exact ⟨rfl,rfl,rfl⟩
  | append_singleton vs v ih =>
    rw [meanAndVarianceRun,List.foldl_append]
    exact tracks_update ih v

-- div64_u64 divides the sum as a u64: a negative sum is divided as 2^64 + sum.
theorem meanAndVarianceGetMean_toInt {s : MeanAndVariance} (count : 0 < s.n.toInt) :
    (meanAndVarianceGetMean s).toInt = (s.sum.toInt % 2^64 / s.n.toInt).bmod (2^64) := by
  have nonzero : s.n ≠ 0 := fun zero => by rw [zero,Int64.toInt_zero] at count; omega
  have nBits := toNat_toUInt64 s.n
  have nHigh := s.n.toInt_lt
  have nMod : s.n.toInt % 2^64 = s.n.toInt := Int.emod_eq_of_lt (by omega) (by omega)
  rw [meanAndVarianceGetMean,if_pos nonzero,toInt_toInt64,UInt64.toNat_div,Int.natCast_div,toNat_toUInt64 s.sum,
    nBits,nMod]

theorem meanAndVarianceGetMean_of_nonneg {s : MeanAndVariance} (count : 0 < s.n.toInt) (total : 0 ≤ s.sum.toInt) :
    (meanAndVarianceGetMean s).toInt = s.sum.toInt / s.n.toInt := by
  have small : s.sum.toInt / s.n.toInt < 2^63 := lt_of_le_of_lt (Int.ediv_le_self _ total) s.sum.toInt_lt
  rw [meanAndVarianceGetMean_toInt count,Int.emod_eq_of_lt total (by have := s.sum.toInt_lt; omega)]
  exact bmod_of_lt (Int.ediv_nonneg total (by omega)) small

theorem meanAndVarianceGetVariance_of_exact {s : MeanAndVariance} {n s1 s2 : Nat} (pos : 0 < n)
    (count : s.n.toInt = n) (total : s.sum.toInt = s1) (squares : s.sumSquares.toNat = s2)
    (cs : s1 ^ 2 ≤ n * s2) (fits : DigitsFit s2 n) :
    (meanAndVarianceGetVariance s).toNat = (s2 / n - (s1 / n) ^ 2) % 2^64 := by
  have nonzero : s.n ≠ 0 := fun zero => by rw [zero,Int64.toInt_zero] at count; omega
  have nBits := toNat_toUInt64 s.n
  have nHigh := s.n.toInt_lt
  have nWord : s.n.toUInt64.toNat = n := by omega
  have mean : (meanAndVarianceGetMean s).toInt = (s1 / n : Nat) := by
    rw [meanAndVarianceGetMean_of_nonneg (by omega) (by omega),count,total,Int.natCast_div]
  have meanWord : (s64Abs (meanAndVarianceGetMean s)).toUInt64.toNat = s1 / n := by
    rw [toNat_s64Abs,mean,Int.natAbs_natCast]
  have quotient : (u128Div s.sumSquares s.n.toUInt64).toNat = s2 / n := by
    rw [u128Div_toNat _ (by omega) (by rwa [nWord,squares]),squares,nWord]
  have below := floor_mean_sq_le cs
  have squaresLt : s2 / n < 2^128 := lt_of_le_of_lt (Nat.div_le_self _ _) (squares ▸ s.sumSquares.toNat_lt)
  rw [meanAndVarianceGetVariance,if_pos nonzero]
  simp only [u128Lo_toNat,u128Sub_toNat,quotient,u128Square_toNat,meanWord]
  omega

theorem sum_toInt_of_nonneg (vs : List Int64) (nonneg : ∀ v ∈ vs, 0 ≤ v.toInt) :
    (vs.map Int64.toInt).sum = (((vs.map fun v => v.toInt.natAbs).sum : Nat) : Int) := by
  induction vs with
  | nil => rfl
  | cons v rest ih =>
    simp only [List.map_cons,List.sum_cons,Nat.cast_add]
    rw [ih (fun w mem => nonneg w (List.mem_cons_of_mem _ mem)),Int.natAbs_of_nonneg (nonneg v List.mem_cons_self)]

theorem meanAndVarianceRun_variance (vs : List Int64) (nonempty : vs ≠ []) (nonneg : ∀ v ∈ vs, 0 ≤ v.toInt)
    (sumSmall : (vs.map fun v => v.toInt.natAbs).sum < 2^63) (countSmall : vs.length < 2^63)
    (fits : DigitsFit (vs.map fun v => v.toInt.natAbs ^ 2).sum vs.length) :
    (meanAndVarianceGetVariance (meanAndVarianceRun vs)).toNat =
      ((vs.map fun v => v.toInt.natAbs ^ 2).sum / vs.length -
        ((vs.map fun v => v.toInt.natAbs).sum / vs.length) ^ 2) % 2^64 := by
  obtain ⟨count,total,squares⟩ := tracks_run vs
  have squaresMap : (vs.map fun v => v.toInt.natAbs ^ 2) = (vs.map fun v => v.toInt.natAbs).map (· ^ 2) := by
    rw [List.map_map]
    rfl
  have cs := sq_sum_le_length_mul_sum_sq (vs.map fun v => v.toInt.natAbs)
  have le := sum_sq_le_sq_sum (vs.map fun v => v.toInt.natAbs)
  rw [← squaresMap,List.length_map] at cs
  rw [← squaresMap] at le
  -- Without negative samples the squares stay below (2^63)^2, inside 128 bits.
  have small : (vs.map fun v => v.toInt.natAbs ^ 2).sum < 2^128 :=
    lt_of_le_of_lt le (lt_trans (Nat.pow_lt_pow_left sumSmall (by decide)) (by norm_num))
  apply meanAndVarianceGetVariance_of_exact (List.length_pos_iff.mpr nonempty) _ _ _ cs fits
  · rw [count]
    apply bmod_of_lt (Int.natCast_nonneg _)
    omega
  · rw [sum_toInt_of_nonneg vs nonneg] at total
    refine total.trans (bmod_of_lt (Int.natCast_nonneg _) ?_)
    omega
  · rw [squares,Nat.mod_eq_of_lt small]

-- Two negative samples: the sum -3 is divided as 2^64 - 3, and the variance wraps.
theorem mean_and_variance_negative_samples :
    meanAndVarianceGetVariance (meanAndVarianceRun [-1,-2]) = 18446744073709551614 := by
  decide

-- The portable helpers agree with arithmetic modulo 2^128 wherever no word wraps, and the
-- variance of nonnegative samples is then exact modulo 2^64.
theorem mean_and_variance_exact_where_words_fit :
    (∀ a b : U128U, (u128Add a b).toNat = (a.toNat + b.toNat) % 2^128) ∧
    (∀ a b : U128U, (u128Sub a b).toNat = (a.toNat + 2^128 - b.toNat) % 2^128) ∧
    (∀ i : UInt64, (u128Square i).toNat = i.toNat ^ 2) ∧
    (∀ (i : U128U) (shift : Int8), 0 < shift.toInt → (shift.toInt < 64 ∨ shift.toInt % 32 = 0) →
      (u128Shl i shift).toNat = i.toNat * 2^shift.toInt.toNat % 2^128) ∧
    (∀ (n : U128U) (d : UInt64), 0 < d.toNat → DigitsFit n.toNat d.toNat →
      (u128Div n d).toNat = n.toNat / d.toNat) ∧
    (∀ vs : List Int64, vs ≠ [] → (∀ v ∈ vs, 0 ≤ v.toInt) → (vs.map fun v => v.toInt.natAbs).sum < 2^63 →
      vs.length < 2^63 → DigitsFit (vs.map fun v => v.toInt.natAbs ^ 2).sum vs.length →
      (meanAndVarianceGetVariance (meanAndVarianceRun vs)).toNat =
        ((vs.map fun v => v.toInt.natAbs ^ 2).sum / vs.length -
          ((vs.map fun v => v.toInt.natAbs).sum / vs.length) ^ 2) % 2^64) :=
  ⟨u128Add_toNat,u128Sub_toNat,u128Square_toNat,fun i _ pos exact => u128Shl_toNat i pos exact,
    fun n _ pos fits => u128Div_toNat n pos fits,meanAndVarianceRun_variance⟩

theorem mean_and_variance_exact_on_small_inputs :
    (u128Shl ⟨0,1⟩ 96).toNat = U128U.toNat ⟨0,1⟩ * 2^(96 : Int8).toInt.toNat % 2^128 ∧
    (u128Div ⟨5,7⟩ 3).toNat = U128U.toNat ⟨5,7⟩ / (3 : UInt64).toNat ∧
    (meanAndVarianceGetVariance (meanAndVarianceRun [1,2,3,4])).toNat =
      ((([1,2,3,4] : List Int64).map fun v => v.toInt.natAbs ^ 2).sum / ([1,2,3,4] : List Int64).length -
        ((([1,2,3,4] : List Int64).map fun v => v.toInt.natAbs).sum / ([1,2,3,4] : List Int64).length) ^ 2) % 2^64 :=
  ⟨mean_and_variance_exact_where_words_fit.2.2.2.1 ⟨0,1⟩ 96 (by decide) (by decide),
    mean_and_variance_exact_where_words_fit.2.2.2.2.1 ⟨5,7⟩ 3 (by decide) (by decide),
    mean_and_variance_exact_where_words_fit.2.2.2.2.2 [1,2,3,4] (List.cons_ne_nil _ _) (by simp) (by decide)
      (by decide) (by decide)⟩

end Samples

end Bcachefs
