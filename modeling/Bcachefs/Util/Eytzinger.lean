import Bcachefs.Lib.EytzingerWalk

namespace Bcachefs

open Eytzinger

-- eytzinger1_child on unsigned: (i << 1) + child, which wraps at 2 ^ 32.
def eytzinger1Child (i child : Nat) : Nat := (2 * i + child) % 2 ^ 32

-- ffz(x) = __ffs(~x) on an unsigned long.
def ffzLong (x : Nat) : Nat := ffs (2 ^ 64 - 1 - x)

-- rounddown_pow_of_two(n) = 1UL << (fls_long(n) - 1), for n ≠ 0.
def rounddownPowOfTwo (n : Nat) : Nat := 2 ^ n.log2

def eytzinger1First (size : Nat) : Nat := if size = 0 then 0 else rounddownPowOfTwo size

def eytzinger1Last (size : Nat) : Nat := rounddownPowOfTwo (size + 1) - 1

-- With a right child: down to it, then left to the last level, back up one level when that
-- node is past size. Without one: up past the trailing ones, to the first ancestor i is left of.
def eytzinger1Next (i size : Nat) : Nat :=
  if eytzinger1Child i 1 ≤ size then
    let i := eytzinger1Child i 1
    let i := (i <<< (size.log2 - i.log2)) % 2 ^ 32
    i >>> (if i > size then 1 else 0)
  else i >>> (ffzLong i + 1)

def eytzinger1Prev (i size : Nat) : Nat :=
  if eytzinger1Child i 0 ≤ size then
    let i := eytzinger1Child i 0 + 1
    let i := (i <<< (size.log2 - i.log2)) % 2 ^ 32
    let i := i - 1
    i >>> (if i > size then 1 else 0)
  else i >>> (ffs i + 1)

-- The indices eytzinger1_for_each(i, size) visits, from i on, with fuel for that many steps.
def eytzinger1ForEachFrom (size : Nat) : Nat → Nat → List Nat
  | 0,_ => []
  | fuel + 1,i => if i = 0 then [] else i :: eytzinger1ForEachFrom size fuel (eytzinger1Next i size)

def eytzinger1ForEach (size : Nat) : List Nat := eytzinger1ForEachFrom size (size + 1) (eytzinger1First size)

-- The zero based wrappers: an index one less, with -1 for the one based 0.
def eytzinger0First (size : Nat) : Int := (eytzinger1First size : Int) - 1

def eytzinger0Next (i size : Nat) : Int := (eytzinger1Next (i + 1) size : Int) - 1

def eytzinger0Prev (i size : Nat) : Int := (eytzinger1Prev (i + 1) size : Int) - 1

def eytzinger0ForEachFrom (size : Nat) : Nat → Int → List Nat
  | 0,_ => []
  | fuel + 1,i => if i = -1 then [] else i.toNat :: eytzinger0ForEachFrom size fuel (eytzinger0Next i.toNat size)

def eytzinger0ForEach (size : Nat) : List Nat := eytzinger0ForEachFrom size (size + 1) (eytzinger0First size)

section Bits

theorem ffs_two_pow_sub {a : Nat} (pos : 0 < a) (lt : a < 2 ^ 64) : ffs (2 ^ 64 - a) = ffs a := by
  have split := odd_mul_ffs pos
  set t := ffs a
  set q := a / 2 ^ (t + 1)
  have small : t < 64 := by
    by_contra big
    have : 2 ^ 64 ≤ 2 ^ t := Nat.pow_le_pow_right (by decide) (by omega)
    nlinarith [Nat.two_pow_pos t]
  have whole : 2 ^ 64 = 2 ^ (64 - t) * 2 ^ t := by rw [← Nat.pow_add,Nat.sub_add_cancel small.le]
  have top : 2 * q + 1 < 2 ^ (64 - t) := by
    rw [whole,← split] at lt
    exact Nat.lt_of_mul_lt_mul_right lt
  have even : 2 ^ (64 - t) = 2 * 2 ^ (64 - t - 1) := by
    rw [← Nat.pow_succ']
    congr 1
    omega
  have negated : 2 ^ 64 - a = (2 * (2 ^ (64 - t - 1) - q - 1) + 1) * 2 ^ t := by
    rw [whole,← split,← Nat.sub_mul]
    congr 1
    omega
  rw [negated,ffs_odd_mul]

theorem ffzLong_eq {x : Nat} (lt : x < 2 ^ 32) : ffzLong x = ffs (x + 1) := by
  unfold ffzLong
  rw [show 2 ^ 64 - 1 - x = 2 ^ 64 - (x + 1) by omega,ffs_two_pow_sub (by omega) (by omega)]

theorem eytzinger1Child_of_lt {i child : Nat} (lt : 2 * i + child < 2 ^ 32) : eytzinger1Child i child = 2 * i + child :=
  Nat.mod_eq_of_lt lt

theorem log2_two_mul_add {x c : Nat} (pos : 0 < x) (small : c < 2) : (2 * x + c).log2 = x.log2 + 1 := by
  have := log2_mul_two_pow_add (j := 1) pos c small
  rwa [Nat.pow_one,Nat.mul_comm] at this

theorem two_pow_pred {t : Nat} (tPos : 0 < t) : 2 ^ t = 2 * 2 ^ (t - 1) := by
  rw [← Nat.pow_succ']
  congr 1
  omega

theorem log2_two_pow_sub_one {t : Nat} (tPos : 0 < t) : (2 ^ t - 1).log2 = t - 1 := by
  have grow := two_pow_pred tPos
  have := Nat.two_pow_pos (t - 1)
  rw [Nat.log2_eq_iff (by omega),Nat.sub_add_cancel tPos]
  omega

end Bits

section Walk

variable {size : Nat} (pos : 0 < size)
include pos

theorem log2_le_of_le {x : Nat} (xPos : 0 < x) (le : x ≤ size) : x.log2 ≤ size.log2 :=
  (Nat.le_log2 (by omega)).mpr (le_trans (Nat.log2_self_le (by omega)) le)

theorem log2_of_no_right {i : Nat} (noRight : size < 2 * i + 1) : size.log2 ≤ i.log2 + 1 := by
  have high := @Nat.lt_log2_self i
  have low := Nat.log2_self_le (n := size) (by omega)
  by_contra deep
  have : 2 ^ (i.log2 + 1) * 2 ≤ 2 ^ size.log2 := by
    rw [← Nat.pow_succ]
    exact Nat.pow_le_pow_right (by decide) (by omega)
  omega

theorem log2_of_no_left {i : Nat} (noLeft : size < 2 * i) : size.log2 ≤ i.log2 + 1 :=
  log2_of_no_right pos (by omega)

theorem hole_right {i : Nat} (iPos : 0 < i) (level : i.log2 + 1 = size.log2) (noRight : size < 2 * i + 1) :
    ¬ Present size (treePos size.log2 i - 2 ^ (size.log2 + 1) + 1) := by
  have childPos := treePos_right_edge (h := size.log2) (j := 0) iPos (by omega)
  rw [Nat.pow_zero,Nat.zero_add,Nat.pow_one,show size.log2 - i.log2 - 1 - 0 = 0 by omega,Nat.pow_zero] at childPos
  have iAbove := two_pow_succ_le_treePos iPos (by omega : i.log2 ≤ size.log2)
  have hole := not_present_treePos pos (by rw [Nat.mul_comm,log2_two_mul_add iPos (by omega)]; exact level)
    (by omega : size < i * 2 + 1)
  rwa [childPos,Nat.sub_add_comm iAbove] at hole

theorem hole_left {i : Nat} (iPos : 0 < i) (level : i.log2 + 1 = size.log2) (noLeft : size < 2 * i) :
    ¬ Present size (treePos size.log2 i - 2 ^ (size.log2 + 1) - 1) := by
  have childPos := treePos_left_edge (h := size.log2) (j := 0) iPos (by omega)
  rw [Nat.pow_zero,Nat.zero_add,Nat.pow_one,Nat.sub_self,Nat.add_zero,show size.log2 - i.log2 - 1 - 0 = 0 by omega,
    Nat.pow_zero] at childPos
  have childLog : (i * 2).log2 = size.log2 := by rw [Nat.mul_comm,Nat.log2_two_mul (by omega),level]
  have childAbove := two_pow_succ_le_treePos (h := size.log2) (x := i * 2) (by omega) (le_of_eq childLog)
  have hole := not_present_treePos pos childLog (by omega : size < i * 2)
  rwa [show treePos size.log2 i - 2 ^ (size.log2 + 1) - 1 = treePos size.log2 (i * 2) - 2 ^ (size.log2 + 1) by omega]

variable (small : size < 2 ^ 31)
include small

theorem log2_size_lt : size.log2 < 31 := by
  have := Nat.log2_self_le (n := size) (by omega)
  by_contra big
  have : 2 ^ 31 ≤ 2 ^ size.log2 := Nat.pow_le_pow_right (by decide) (by omega)
  omega

theorem eytzinger1Next_of_right {i : Nat} (iPos : 0 < i) (right : 2 * i + 1 ≤ size) :
    0 < eytzinger1Next i size ∧ eytzinger1Next i size ≤ size ∧
      eytzinger1ToInorder (eytzinger1Next i size) size = eytzinger1ToInorder i size + 1 := by
  have top := log2_size_lt pos small
  have childLog : (2 * i + 1).log2 = i.log2 + 1 := log2_two_mul_add iPos (by omega)
  have depth : i.log2 + 1 ≤ size.log2 := by
    rw [← childLog]
    exact log2_le_of_le pos (by omega) right
  set k := size.log2 - (i.log2 + 1) with hk
  -- the node at the last level under the right child's left edge
  have edge : (2 * i + 1) * 2 ^ k = i * 2 ^ (k + 1) + 2 ^ k := by
    rw [Nat.pow_succ]
    ring
  have edgeLog : ((2 * i + 1) * 2 ^ k).log2 = size.log2 := by
    rw [edge,log2_mul_two_pow_add iPos _ (by have := Nat.two_pow_pos k; rw [Nat.pow_succ]; omega)]
    omega
  have edgeLt : (2 * i + 1) * 2 ^ k < 2 ^ 32 := by
    have := @Nat.lt_log2_self ((2 * i + 1) * 2 ^ k)
    rw [edgeLog] at this
    have : 2 ^ (size.log2 + 1) ≤ 2 ^ 32 := Nat.pow_le_pow_right (by decide) (by omega)
    omega
  have shifted : ((2 * i + 1) <<< (size.log2 - (2 * i + 1).log2)) % 2 ^ 32 = (2 * i + 1) * 2 ^ k := by
    rw [childLog,Nat.shiftLeft_eq,Nat.mod_eq_of_lt edgeLt]
  have edgePos := treePos_right_edge (h := size.log2) (j := k) iPos (by omega)
  rw [← edge,show size.log2 - i.log2 - 1 - k = 0 by omega,Nat.pow_zero] at edgePos
  unfold eytzinger1Next
  rw [if_pos (by rw [eytzinger1Child_of_lt (by omega)]; exact right),eytzinger1Child_of_lt (by omega)]
  dsimp only
  rw [shifted]
  by_cases past : (2 * i + 1) * 2 ^ k > size
  · -- past size: the node one level up, after the hole at the last level
    have kPos : 0 < k := by
      by_contra zero
      rw [show k = 0 by omega,Nat.pow_zero,Nat.mul_one] at past
      omega
    have half : ((2 * i + 1) * 2 ^ k) >>> 1 = i * 2 ^ (k - 1 + 1) + 2 ^ (k - 1) := by
      have double : (2 * i + 1) * 2 ^ k = 2 * (i * 2 ^ (k - 1 + 1) + 2 ^ (k - 1)) := by
        rw [show k = k - 1 + 1 from (Nat.sub_add_cancel kPos).symm,Nat.add_sub_cancel]
        ring
      rw [Nat.shiftRight_eq_div_pow,Nat.pow_one,double,Nat.mul_div_cancel_left _ (by decide)]
    have upPos := treePos_right_edge (h := size.log2) (j := k - 1) iPos (by omega)
    rw [show size.log2 - i.log2 - 1 - (k - 1) = 1 by omega,Nat.pow_one] at upPos
    have upLt : i * 2 ^ (k - 1 + 1) + 2 ^ (k - 1) ≤ size := by
      have low := Nat.log2_self_le (n := size) (by omega)
      have := @Nat.lt_log2_self (i * 2 ^ (k - 1 + 1) + 2 ^ (k - 1))
      rw [log2_mul_two_pow_add iPos _ (by have := Nat.two_pow_pos (k - 1); rw [Nat.pow_succ]; omega)] at this
      have : 2 ^ (i.log2 + (k - 1 + 1) + 1) ≤ 2 ^ size.log2 := Nat.pow_le_pow_right (by decide) (by omega)
      omega
    have hole := not_present_treePos pos edgeLog past
    have iAbove := two_pow_succ_le_treePos iPos (by omega : i.log2 ≤ size.log2)
    rw [if_pos past,half]
    refine ⟨by positivity,upLt,eytzinger1ToInorder_of_treePos_add_two pos iPos (by omega) (by positivity) upLt ?_ upPos⟩
    rwa [edgePos,Nat.sub_add_comm iAbove] at hole
  · rw [if_neg past,Nat.shiftRight_zero]
    exact ⟨by positivity,by omega,eytzinger1ToInorder_of_treePos_succ pos iPos (by omega) (by positivity) (by omega) edgePos⟩

theorem eytzinger1Next_of_up {i : Nat} (iPos : 0 < i) (iIn : i ≤ size) (noRight : size < 2 * i + 1) :
    (eytzinger1Next i size = 0 ∧ eytzinger1ToInorder i size = size) ∨
      (0 < eytzinger1Next i size ∧ eytzinger1Next i size ≤ size ∧
        eytzinger1ToInorder (eytzinger1Next i size) size = eytzinger1ToInorder i size + 1) := by
  have top := log2_size_lt pos small
  have split := odd_mul_ffs (c := i + 1) (by omega)
  set t := ffs (i + 1)
  set q := (i + 1) / 2 ^ (t + 1)
  have one := Nat.two_pow_pos t
  have iEq : i = q * 2 ^ (t + 1) + (2 ^ t - 1) := by
    have : q * 2 ^ (t + 1) + 2 ^ t = i + 1 := by
      rw [← split,Nat.pow_succ]
      ring
    omega
  have up : i >>> (t + 1) = q := by
    rw [Nat.shiftRight_eq_div_pow,iEq,Nat.mul_comm,Nat.mul_add_div (Nat.two_pow_pos _),
      Nat.div_eq_of_lt (by rw [Nat.pow_succ]; omega),Nat.add_zero]
  have depth := log2_le_of_le pos iPos iIn
  have shallow := log2_of_no_right pos noRight
  have iAbove := two_pow_succ_le_treePos iPos depth
  unfold eytzinger1Next
  rw [if_neg (by rw [eytzinger1Child_of_lt (by omega)]; omega),ffzLong_eq (by omega),up]
  by_cases last : q = 0
  · -- i is 2 ^ t - 1, the right edge of the tree: the last node
    left
    refine ⟨last,?_⟩
    rw [last,Nat.zero_mul,Nat.zero_add] at iEq
    have tPos : 0 < t := by
      by_contra zero
      rw [show t = 0 by omega,Nat.pow_zero] at iEq
      omega
    have iLog : i.log2 = t - 1 := by rw [iEq,log2_two_pow_sub_one tPos]
    have grow := two_pow_pred tPos
    have hTop : 2 ^ (size.log2 + 1) = 2 * 2 ^ size.log2 := Nat.pow_succ'
    rw [eytzinger1ToInorder_treePos iPos depth]
    apply compress_top pos (present_treePos pos iPos iIn).2
    intro d above below present
    unfold treePos at above
    rw [iLog] at above
    rcases Nat.lt_or_ge (t - 1) size.log2 with upper | lower
    · -- one level above the last: only the hole of its right child is left
      have level : i.log2 + 1 = size.log2 := by omega
      have hole := hole_right pos iPos level noRight
      unfold treePos at hole
      rw [show size.log2 - i.log2 = 1 by omega,Nat.pow_one] at hole
      rw [show size.log2 - (t - 1) = 1 by omega,Nat.pow_one] at above
      rw [show t - 1 = size.log2 - 1 by omega] at grow
      have := two_pow_pred (t := size.log2) (by omega)
      exact hole (by rw [show (2 * i + 1) * 2 - 2 ^ (size.log2 + 1) + 1 = d by omega]; exact present)
    · rw [show size.log2 - (t - 1) = 0 by omega,Nat.pow_zero,Nat.mul_one] at above
      rw [show t - 1 = size.log2 by omega] at grow
      omega
  · right
    have qPos : 0 < q := Nat.pos_of_ne_zero last
    have iLog : i.log2 = q.log2 + (t + 1) := by
      rw [iEq,log2_mul_two_pow_add qPos _ (by rw [Nat.pow_succ]; omega)]
    have qLt : q < i := by
      rw [iEq]
      have : q < q * 2 ^ (t + 1) := by
        have : 2 ≤ 2 ^ (t + 1) := by rw [Nat.pow_succ]; omega
        nlinarith
      omega
    have upPos := treePos_left_edge (h := size.log2) (j := t) qPos (by omega)
    rw [← iEq] at upPos
    refine ⟨qPos,by omega,?_⟩
    rcases Nat.lt_or_ge i.log2 size.log2 with upper | lower
    · rw [show size.log2 - q.log2 - 1 - t = 1 by omega,Nat.pow_one] at upPos
      have hole := hole_right pos iPos (by omega) noRight
      exact eytzinger1ToInorder_of_treePos_add_two pos iPos iIn qPos (by omega) hole upPos.symm
    · rw [show size.log2 - q.log2 - 1 - t = 0 by omega,Nat.pow_zero] at upPos
      exact eytzinger1ToInorder_of_treePos_succ pos iPos iIn qPos (by omega) upPos.symm

theorem eytzinger1Prev_of_left {i : Nat} (iPos : 0 < i) (left : 2 * i ≤ size) :
    0 < eytzinger1Prev i size ∧ eytzinger1Prev i size ≤ size ∧
      eytzinger1ToInorder (eytzinger1Prev i size) size + 1 = eytzinger1ToInorder i size := by
  have top := log2_size_lt pos small
  have childLog : (2 * i + 1).log2 = i.log2 + 1 := log2_two_mul_add iPos (by omega)
  have depth : i.log2 + 1 ≤ size.log2 := by
    rw [← Nat.log2_two_mul (by omega)]
    exact log2_le_of_le pos (by omega) left
  set k := size.log2 - (i.log2 + 1) with hk
  have one := Nat.two_pow_pos k
  -- the node at the last level under the left child's right edge
  have edge : (2 * i + 1) * 2 ^ k - 1 = i * 2 ^ (k + 1) + (2 ^ k - 1) := by
    have : (2 * i + 1) * 2 ^ k = i * 2 ^ (k + 1) + 2 ^ k := by
      rw [Nat.pow_succ]
      ring
    omega
  have edgeLog : ((2 * i + 1) * 2 ^ k - 1).log2 = size.log2 := by
    rw [edge,log2_mul_two_pow_add iPos _ (by rw [Nat.pow_succ]; omega)]
    omega
  have edgeLt : (2 * i + 1) * 2 ^ k < 2 ^ 32 := by
    have := @Nat.lt_log2_self ((2 * i + 1) * 2 ^ k - 1)
    rw [edgeLog] at this
    have : 2 ^ (size.log2 + 1) ≤ 2 ^ 31 := Nat.pow_le_pow_right (by decide) (by omega)
    omega
  have shifted : ((2 * i + 1) <<< (size.log2 - (2 * i + 1).log2)) % 2 ^ 32 = (2 * i + 1) * 2 ^ k := by
    rw [childLog,Nat.shiftLeft_eq,Nat.mod_eq_of_lt edgeLt]
  have edgePos := treePos_left_edge (h := size.log2) (j := k) iPos (by omega)
  rw [← edge,show size.log2 - i.log2 - 1 - k = 0 by omega,Nat.pow_zero] at edgePos
  unfold eytzinger1Prev
  rw [if_pos (by rw [eytzinger1Child_of_lt (by omega)]; exact left),eytzinger1Child_of_lt (by omega)]
  dsimp only
  rw [shifted]
  by_cases past : (2 * i + 1) * 2 ^ k - 1 > size
  · -- past size: the node one level up, before the hole at the last level
    have kPos : 0 < k := by
      by_contra zero
      rw [show k = 0 by omega,Nat.pow_zero,Nat.mul_one] at past
      omega
    have grow := two_pow_pred kPos
    have half : ((2 * i + 1) * 2 ^ k - 1) >>> 1 = i * 2 ^ (k - 1 + 1) + (2 ^ (k - 1) - 1) := by
      rw [Nat.shiftRight_eq_div_pow,Nat.pow_one,edge,Nat.sub_add_cancel kPos,Nat.pow_succ,grow]
      have := Nat.two_pow_pos (k - 1)
      have : i * (2 * 2 ^ (k - 1) * 2) = 2 * (2 * (i * 2 ^ (k - 1))) := by ring
      have : i * (2 * 2 ^ (k - 1)) = 2 * (i * 2 ^ (k - 1)) := by ring
      omega
    have upPos := treePos_left_edge (h := size.log2) (j := k - 1) iPos (by omega)
    rw [show size.log2 - i.log2 - 1 - (k - 1) = 1 by omega,Nat.pow_one] at upPos
    have upLog : (i * 2 ^ (k - 1 + 1) + (2 ^ (k - 1) - 1)).log2 = i.log2 + (k - 1 + 1) :=
      log2_mul_two_pow_add iPos _ (by have := Nat.two_pow_pos (k - 1); rw [Nat.pow_succ]; omega)
    have upLe : i * 2 ^ (k - 1 + 1) + (2 ^ (k - 1) - 1) ≤ size := by
      have low := Nat.log2_self_le (n := size) (by omega)
      have := @Nat.lt_log2_self (i * 2 ^ (k - 1 + 1) + (2 ^ (k - 1) - 1))
      rw [upLog] at this
      have : 2 ^ (i.log2 + (k - 1 + 1) + 1) ≤ 2 ^ size.log2 := Nat.pow_le_pow_right (by decide) (by omega)
      omega
    have upPositive : 0 < i * 2 ^ (k - 1 + 1) + (2 ^ (k - 1) - 1) := by
      have : 0 < i * 2 ^ (k - 1 + 1) := Nat.mul_pos iPos (Nat.two_pow_pos _)
      omega
    have hole := not_present_treePos pos edgeLog past
    have upAbove := two_pow_succ_le_treePos upPositive (by omega : _ ≤ size.log2)
    rw [if_pos past,half]
    refine ⟨upPositive,upLe,(eytzinger1ToInorder_of_treePos_add_two pos upPositive upLe iPos (by omega) ?_ (by omega)).symm⟩
    rw [show treePos size.log2 (i * 2 ^ (k - 1 + 1) + (2 ^ (k - 1) - 1)) - 2 ^ (size.log2 + 1) + 1 =
      treePos size.log2 ((2 * i + 1) * 2 ^ k - 1) - 2 ^ (size.log2 + 1) by omega]
    exact hole
  · rw [if_neg past,Nat.shiftRight_zero]
    have edgePositive : 0 < (2 * i + 1) * 2 ^ k - 1 := by
      have : 2 ≤ (2 * i + 1) * 2 ^ k := by nlinarith
      omega
    exact ⟨edgePositive,by omega,
      (eytzinger1ToInorder_of_treePos_succ pos edgePositive (by omega) iPos (by omega) edgePos.symm).symm⟩

theorem eytzinger1Prev_of_up {i : Nat} (iPos : 0 < i) (iIn : i ≤ size) (noLeft : size < 2 * i) :
    (eytzinger1Prev i size = 0 ∧ eytzinger1ToInorder i size = 1) ∨
      (0 < eytzinger1Prev i size ∧ eytzinger1Prev i size ≤ size ∧
        eytzinger1ToInorder (eytzinger1Prev i size) size + 1 = eytzinger1ToInorder i size) := by
  have top := log2_size_lt pos small
  have split := odd_mul_ffs iPos
  set t := ffs i
  set q := i / 2 ^ (t + 1)
  have one := Nat.two_pow_pos t
  have iEq : i = q * 2 ^ (t + 1) + 2 ^ t := by
    rw [← split,Nat.pow_succ]
    ring
  have up : i >>> (t + 1) = q := Nat.shiftRight_eq_div_pow i (t + 1)
  have depth := log2_le_of_le pos iPos iIn
  have shallow := log2_of_no_left pos noLeft
  unfold eytzinger1Prev
  rw [if_neg (by rw [eytzinger1Child_of_lt (by omega)]; omega),up]
  by_cases first : q = 0
  · -- i is 2 ^ t, the left edge: the first node
    left
    refine ⟨first,?_⟩
    rw [first,Nat.zero_mul,Nat.zero_add] at iEq
    have iLog : i.log2 = t := by rw [iEq,Nat.log2_two_pow]
    have bottom : t = size.log2 := by
      by_contra above
      have deeper : 2 ^ (t + 1) ≤ 2 ^ size.log2 := Nat.pow_le_pow_right (by decide) (by omega)
      have low := Nat.log2_self_le (n := size) (by omega)
      rw [Nat.pow_succ] at deeper
      omega
    rw [eytzinger1ToInorder_treePos iPos depth,treePos,iLog,← bottom,Nat.sub_self,Nat.pow_zero,Nat.mul_one,iEq,
      Nat.pow_succ]
    rw [show 2 * 2 ^ t + 1 - 2 ^ t * 2 = 1 by omega]
    exact compress_one pos
  · right
    have qPos : 0 < q := Nat.pos_of_ne_zero first
    have iLog : i.log2 = q.log2 + (t + 1) := by
      rw [iEq,log2_mul_two_pow_add qPos _ (by rw [Nat.pow_succ]; omega)]
    have qLt : q < i := by
      rw [iEq]
      have : q < q * 2 ^ (t + 1) := by
        have : 2 ≤ 2 ^ (t + 1) := by rw [Nat.pow_succ]; omega
        nlinarith
      omega
    have upPos := treePos_right_edge (h := size.log2) (j := t) qPos (by omega)
    rw [← iEq] at upPos
    have qAbove := two_pow_succ_le_treePos qPos (by omega : q.log2 ≤ size.log2)
    refine ⟨qPos,by omega,?_⟩
    rcases Nat.lt_or_ge i.log2 size.log2 with upper | lower
    · rw [show size.log2 - q.log2 - 1 - t = 1 by omega,Nat.pow_one] at upPos
      have hole := hole_left pos iPos (by omega) noLeft
      refine (eytzinger1ToInorder_of_treePos_add_two pos qPos (by omega) iPos iIn ?_ upPos).symm
      rwa [show treePos size.log2 q - 2 ^ (size.log2 + 1) + 1 = treePos size.log2 i - 2 ^ (size.log2 + 1) - 1 by omega]
    · rw [show size.log2 - q.log2 - 1 - t = 0 by omega,Nat.pow_zero] at upPos
      exact (eytzinger1ToInorder_of_treePos_succ pos qPos (by omega) iPos iIn upPos).symm

theorem eytzinger1Next_spec {i : Nat} (iPos : 0 < i) (iIn : i ≤ size) :
    (eytzinger1Next i size = 0 ∧ eytzinger1ToInorder i size = size) ∨
      (0 < eytzinger1Next i size ∧ eytzinger1Next i size ≤ size ∧
        eytzinger1ToInorder (eytzinger1Next i size) size = eytzinger1ToInorder i size + 1) := by
  by_cases right : 2 * i + 1 ≤ size
  · exact .inr (eytzinger1Next_of_right pos small iPos right)
  · exact eytzinger1Next_of_up pos small iPos iIn (by omega)

theorem eytzinger1Prev_spec {i : Nat} (iPos : 0 < i) (iIn : i ≤ size) :
    (eytzinger1Prev i size = 0 ∧ eytzinger1ToInorder i size = 1) ∨
      (0 < eytzinger1Prev i size ∧ eytzinger1Prev i size ≤ size ∧
        eytzinger1ToInorder (eytzinger1Prev i size) size + 1 = eytzinger1ToInorder i size) := by
  by_cases left : 2 * i ≤ size
  · exact .inr (eytzinger1Prev_of_left pos small iPos left)
  · exact eytzinger1Prev_of_up pos small iPos iIn (by omega)

theorem eytzinger1Next_of_lt {i : Nat} (iPos : 0 < i) (iIn : i ≤ size) (notLast : eytzinger1ToInorder i size < size) :
    0 < eytzinger1Next i size ∧ eytzinger1Next i size ≤ size ∧
      eytzinger1ToInorder (eytzinger1Next i size) size = eytzinger1ToInorder i size + 1 := by
  rcases eytzinger1Next_spec pos small iPos iIn with ⟨-,last⟩ | next
  · omega
  · exact next

theorem eytzinger1Next_of_last {i : Nat} (iPos : 0 < i) (iIn : i ≤ size) (last : eytzinger1ToInorder i size = size) :
    eytzinger1Next i size = 0 := by
  rcases eytzinger1Next_spec pos small iPos iIn with ⟨zero,-⟩ | ⟨nextPos,nextIn,rank⟩
  · exact zero
  · have := (eytzinger1ToInorder_mem pos nextPos nextIn).2
    omega

theorem eytzinger1Prev_of_gt {i : Nat} (iPos : 0 < i) (iIn : i ≤ size) (notFirst : 1 < eytzinger1ToInorder i size) :
    0 < eytzinger1Prev i size ∧ eytzinger1Prev i size ≤ size ∧
      eytzinger1ToInorder (eytzinger1Prev i size) size + 1 = eytzinger1ToInorder i size := by
  rcases eytzinger1Prev_spec pos small iPos iIn with ⟨-,first⟩ | prev
  · omega
  · exact prev

theorem eytzinger1First_spec :
    0 < eytzinger1First size ∧ eytzinger1First size ≤ size ∧ eytzinger1ToInorder (eytzinger1First size) size = 1 := by
  have low := Nat.log2_self_le (n := size) (by omega)
  have first : eytzinger1First size = 2 ^ size.log2 := by rw [eytzinger1First,if_neg (by omega),rounddownPowOfTwo]
  rw [first]
  refine ⟨Nat.two_pow_pos _,low,?_⟩
  rw [eytzinger1ToInorder_treePos (Nat.two_pow_pos _) (by rw [Nat.log2_two_pow]),treePos,Nat.log2_two_pow,Nat.sub_self,
    Nat.pow_zero,Nat.mul_one,Nat.pow_succ,show 2 * 2 ^ size.log2 + 1 - 2 ^ size.log2 * 2 = 1 by omega]
  exact compress_one pos

omit pos small in
theorem eytzinger1ForEachFrom_zero (fuel : Nat) : eytzinger1ForEachFrom size fuel 0 = [] := by
  cases fuel <;> rfl

theorem eytzinger1ForEachFrom_eq (fuel : Nat) {i : Nat} (iPos : 0 < i) (iIn : i ≤ size)
    (enough : size - eytzinger1ToInorder i size < fuel) :
    eytzinger1ForEachFrom size fuel i =
      (List.range' (eytzinger1ToInorder i size) (size + 1 - eytzinger1ToInorder i size)).map (inorderToEytzinger1 · size) := by
  induction fuel generalizing i with
  | zero => omega
  | succ fuel ih =>
    obtain ⟨rankPos,rankLe⟩ := eytzinger1ToInorder_mem pos iPos iIn
    have back := inorderToEytzinger1_eytzinger1ToInorder pos iPos iIn
    rw [eytzinger1ForEachFrom,if_neg (by omega)]
    by_cases last : eytzinger1ToInorder i size = size
    · rw [last] at back
      rw [eytzinger1Next_of_last pos small iPos iIn last,eytzinger1ForEachFrom_zero,last,
        show size + 1 - size = 0 + 1 by omega,List.range'_succ,List.range'_zero,List.map_cons,List.map_nil,back]
    · obtain ⟨nextPos,nextIn,nextRank⟩ := eytzinger1Next_of_lt pos small iPos iIn (by omega)
      rw [ih nextPos nextIn (by omega),nextRank,show size + 1 - eytzinger1ToInorder i size =
        size + 1 - (eytzinger1ToInorder i size + 1) + 1 by omega,List.range'_succ,List.map_cons,back]

theorem eytzinger1ForEach_eq : eytzinger1ForEach size = (List.range' 1 size).map (inorderToEytzinger1 · size) := by
  obtain ⟨firstPos,firstIn,firstRank⟩ := eytzinger1First_spec pos small
  rw [eytzinger1ForEach,eytzinger1ForEachFrom_eq pos small _ firstPos firstIn (by omega),firstRank,Nat.add_sub_cancel]

end Walk

section Order

variable {size : Nat} (pos : 0 < size) (small : size < 2 ^ 31)
include pos small

theorem map_eytzinger1ToInorder_forEach :
    (eytzinger1ForEach size).map (eytzinger1ToInorder · size) = List.range' 1 size := by
  rw [eytzinger1ForEach_eq pos small,List.map_map]
  conv_rhs => rw [← List.map_id (List.range' 1 size)]
  apply List.map_congr_left
  intro l mem
  rw [List.mem_range'_1] at mem
  exact eytzinger1ToInorder_inorderToEytzinger1 pos (by omega) (by omega)

theorem eytzinger1ForEach_perm : (eytzinger1ForEach size).Perm (List.range' 1 size) := by
  have nodup : (eytzinger1ForEach size).Nodup :=
    List.Nodup.of_map _ ((map_eytzinger1ToInorder_forEach pos small).symm ▸ List.nodup_range')
  apply (List.perm_ext_iff_of_nodup nodup List.nodup_range').mpr
  intro x
  rw [eytzinger1ForEach_eq pos small,List.mem_map,List.mem_range'_1]
  constructor
  · rintro ⟨l,range,rfl⟩
    rw [List.mem_range'_1] at range
    have := inorderToEytzinger1_mem pos (by omega : 0 < l) (by omega)
    omega
  · intro inside
    have := eytzinger1ToInorder_mem pos (by omega : 0 < x) (by omega)
    exact ⟨eytzinger1ToInorder x size,List.mem_range'_1.mpr (by omega),
      inorderToEytzinger1_eytzinger1ToInorder pos (by omega) (by omega)⟩

theorem eytzinger1Prev_next {i : Nat} (iPos : 0 < i) (iIn : i ≤ size) (notLast : eytzinger1ToInorder i size < size) :
    eytzinger1Prev (eytzinger1Next i size) size = i := by
  have iRank := eytzinger1ToInorder_mem pos iPos iIn
  obtain ⟨nextPos,nextIn,nextRank⟩ := eytzinger1Next_of_lt pos small iPos iIn notLast
  obtain ⟨prevPos,prevIn,prevRank⟩ := eytzinger1Prev_of_gt pos small nextPos nextIn (by omega)
  rw [← inorderToEytzinger1_eytzinger1ToInorder pos prevPos prevIn,show eytzinger1ToInorder
    (eytzinger1Prev (eytzinger1Next i size) size) size = eytzinger1ToInorder i size by omega,
    inorderToEytzinger1_eytzinger1ToInorder pos iPos iIn]

omit pos small in
theorem eytzinger0ForEachFrom_eq (fuel j : Nat) :
    eytzinger0ForEachFrom size fuel ((j : Int) - 1) = (eytzinger1ForEachFrom size fuel j).map (· - 1) := by
  induction fuel generalizing j with
  | zero => rfl
  | succ fuel ih =>
    by_cases zero : j = 0
    · subst zero
      rfl
    · have index : ((j : Int) - 1).toNat = j - 1 := by omega
      rw [eytzinger0ForEachFrom,if_neg (by omega),eytzinger1ForEachFrom,if_neg zero,List.map_cons,index,eytzinger0Next,
        Nat.sub_add_cancel (by omega),ih]

theorem eytzinger0ForEach_eq : eytzinger0ForEach size = (List.range size).map (inorderToEytzinger0 · size) := by
  rw [eytzinger0ForEach,eytzinger0First,eytzinger0ForEachFrom_eq,← eytzinger1ForEach,eytzinger1ForEach_eq pos small,
    List.map_map,List.range'_eq_map_range,List.map_map]
  apply List.map_congr_left
  intro l _
  show inorderToEytzinger1 (1 + l) size - 1 = inorderToEytzinger1 (l + 1) size - 1
  rw [Nat.add_comm]

theorem map_eytzinger0ToInorder_forEach :
    (eytzinger0ForEach size).map (eytzinger0ToInorder · size) = List.range size := by
  rw [eytzinger0ForEach_eq pos small,List.map_map]
  conv_rhs => rw [← List.map_id (List.range size)]
  apply List.map_congr_left
  intro l mem
  exact eytzinger0ToInorder_inorderToEytzinger0 (List.mem_range.mp mem)

theorem eytzinger0ForEach_perm : (eytzinger0ForEach size).Perm (List.range size) := by
  have nodup : (eytzinger0ForEach size).Nodup :=
    List.Nodup.of_map _ ((map_eytzinger0ToInorder_forEach pos small).symm ▸ List.nodup_range)
  apply (List.perm_ext_iff_of_nodup nodup List.nodup_range).mpr
  intro x
  rw [eytzinger0ForEach_eq pos small,List.mem_map,List.mem_range]
  constructor
  · rintro ⟨l,range,rfl⟩
    exact inorderToEytzinger0_lt (List.mem_range.mp range)
  · intro inside
    exact ⟨eytzinger0ToInorder x size,List.mem_range.mpr (eytzinger0ToInorder_lt inside),
      inorderToEytzinger0_eytzinger0ToInorder inside⟩

theorem eytzinger0Prev_next {i : Nat} (inside : i < size) (notLast : eytzinger0ToInorder i size + 1 < size) :
    eytzinger0Prev (eytzinger0Next i size).toNat size = i := by
  have rank := eytzinger1ToInorder_mem pos (by omega : 0 < i + 1) inside
  have notLast1 : eytzinger1ToInorder (i + 1) size < size := by
    have : eytzinger0ToInorder i size = eytzinger1ToInorder (i + 1) size - 1 := rfl
    omega
  have nextPos := (eytzinger1Next_of_lt pos small (by omega) inside notLast1).1
  have index : ((eytzinger1Next (i + 1) size : Int) - 1).toNat = eytzinger1Next (i + 1) size - 1 := by omega
  rw [eytzinger0Next,index,eytzinger0Prev,Nat.sub_add_cancel nextPos,eytzinger1Prev_next pos small (by omega) inside notLast1]
  omega

end Order

-- For 1 ≤ size < 2 ^ 31: the index maps are inverse bijections, the walks visit every index
-- once in order, and the node before the next one is the node itself, one and zero based.
theorem eytzinger_walk_in_order (size : Nat) (pos : 0 < size) (small : size < 2 ^ 31) :
    (∀ i, 0 < i → i ≤ size → 0 < eytzinger1ToInorder i size ∧ eytzinger1ToInorder i size ≤ size ∧
      inorderToEytzinger1 (eytzinger1ToInorder i size) size = i) ∧
    (∀ l, 0 < l → l ≤ size → 0 < inorderToEytzinger1 l size ∧ inorderToEytzinger1 l size ≤ size ∧
      eytzinger1ToInorder (inorderToEytzinger1 l size) size = l) ∧
    (eytzinger1ForEach size).map (eytzinger1ToInorder · size) = List.range' 1 size ∧
    (eytzinger1ForEach size).Perm (List.range' 1 size) ∧
    (∀ i, 0 < i → i ≤ size → eytzinger1ToInorder i size < size → eytzinger1Prev (eytzinger1Next i size) size = i) ∧
    (∀ i, i < size → eytzinger0ToInorder i size < size ∧ inorderToEytzinger0 (eytzinger0ToInorder i size) size = i) ∧
    (∀ l, l < size → inorderToEytzinger0 l size < size ∧ eytzinger0ToInorder (inorderToEytzinger0 l size) size = l) ∧
    (eytzinger0ForEach size).map (eytzinger0ToInorder · size) = List.range size ∧
    (eytzinger0ForEach size).Perm (List.range size) ∧
    (∀ i, i < size → eytzinger0ToInorder i size + 1 < size → eytzinger0Prev (eytzinger0Next i size).toNat size = i) := by
  refine ⟨fun i iPos iIn => ?_,fun l lPos lIn => ?_,map_eytzinger1ToInorder_forEach pos small,eytzinger1ForEach_perm pos small,
    fun i iPos iIn notLast => eytzinger1Prev_next pos small iPos iIn notLast,
    fun i inside => ⟨eytzinger0ToInorder_lt inside,inorderToEytzinger0_eytzinger0ToInorder inside⟩,
    fun l inside => ⟨inorderToEytzinger0_lt inside,eytzinger0ToInorder_inorderToEytzinger0 inside⟩,
    map_eytzinger0ToInorder_forEach pos small,eytzinger0ForEach_perm pos small,
    fun i inside notLast => eytzinger0Prev_next pos small inside notLast⟩
  · obtain ⟨rankPos,rankLe⟩ := eytzinger1ToInorder_mem pos iPos iIn
    exact ⟨rankPos,rankLe,inorderToEytzinger1_eytzinger1ToInorder pos iPos iIn⟩
  · obtain ⟨nodePos,nodeLe⟩ := inorderToEytzinger1_mem pos lPos lIn
    exact ⟨nodePos,nodeLe,eytzinger1ToInorder_inorderToEytzinger1 pos lPos lIn⟩

theorem eytzinger_walk_in_order_five :
    (eytzinger1ForEach 5).map (eytzinger1ToInorder · 5) = List.range' 1 5 ∧
      (eytzinger0ForEach 5).Perm (List.range 5) :=
  ⟨(eytzinger_walk_in_order 5 (by decide) (by decide)).2.2.1,(eytzinger_walk_in_order 5 (by decide) (by decide)).2.2.2.2.2.2.2.2.1⟩

-- At 2 ^ 31 nodes the right child of the first node, 2 ^ 32 + 1, wraps to 1: eytzinger1_next
-- comes back to the first node and eytzinger1_for_each never ends.
theorem eytzinger1_next_wraps_at_two_pow_31 :
    eytzinger1First (2 ^ 31) = 2 ^ 31 ∧ eytzinger1Next (2 ^ 31) (2 ^ 31) = 2 ^ 31 := by
  decide

end Bcachefs
