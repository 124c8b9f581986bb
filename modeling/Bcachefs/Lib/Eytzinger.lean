import Mathlib
import Bcachefs.Lib.HeapSort

namespace Eytzinger

open HeapSort

-- __ffs: the index of the lowest set bit of a nonzero word.
def ffs (x : Nat) : Nat := if x = 0 ∨ x % 2 = 1 then 0 else ffs (x / 2) + 1
termination_by x
decreasing_by omega

-- eytzinger1_extra: twice the number of nodes on the last level.
def eytzinger1Extra (size : Nat) : Nat := if size = 0 then 0 else (size + 1 - 2 ^ size.log2) <<< 1

-- __eytzinger1_to_inorder. With s = extra - i, the sign bit trick
-- i += (s >> 1) & (s >> 31) adds s >> 1 when s is negative.
def rawEytzinger1ToInorder (i size extra : Nat) : Nat :=
  let b := i.log2
  let shift := size.log2 - b
  let i := (((i ^^^ (1 <<< b)) <<< 1) ||| 1) <<< shift
  let s : Int := extra - i
  ((i : Int) + if s < 0 then s >>> (1 : Nat) else 0).toNat

-- __inorder_to_eytzinger1, where i -= s & (s >> 31) subtracts s when it is negative.
def rawInorderToEytzinger1 (i size extra : Nat) : Nat :=
  let s : Int := extra - i
  let i := ((i : Int) - if s < 0 then s else 0).toNat
  let shift := ffs i
  (i >>> (shift + 1)) ||| (1 <<< (size.log2 - shift))

def eytzinger1ToInorder (i size : Nat) : Nat := rawEytzinger1ToInorder i size (eytzinger1Extra size)

def inorderToEytzinger1 (i size : Nat) : Nat := rawInorderToEytzinger1 i size (eytzinger1Extra size)

-- The zero based maps, eytzinger0_extra being eytzinger1_extra.
def eytzinger0ToInorder (i size : Nat) : Nat := rawEytzinger1ToInorder (i + 1) size (eytzinger1Extra size) - 1

def inorderToEytzinger0 (i size : Nat) : Nat := rawInorderToEytzinger1 (i + 1) size (eytzinger1Extra size) - 1

section Bits

theorem log2_two_pow_add {b r : Nat} (lt : r < 2 ^ b) : (2 ^ b + r).log2 = b := by
  rw [Nat.log2_eq_iff (by positivity),Nat.pow_succ]
  omega

theorem two_pow_add_xor {b r : Nat} (lt : r < 2 ^ b) : (2 ^ b + r) ^^^ 2 ^ b = r := by
  apply Nat.eq_of_testBit_eq
  intro j
  rw [Nat.testBit_xor]
  rcases Nat.lt_trichotomy j b with below | rfl | above
  · rw [Nat.testBit_two_pow_add_gt below,Nat.testBit_two_pow_of_ne (by omega),Bool.xor_false]
  · rw [Nat.testBit_two_pow_add_eq,Nat.testBit_two_pow_self,Nat.testBit_lt_two_pow lt]
    rfl
  · have top : 2 ^ (b + 1) ≤ 2 ^ j := Nat.pow_le_pow_right (by decide) above
    rw [Nat.pow_succ] at top
    rw [Nat.testBit_lt_two_pow (by omega : 2 ^ b + r < 2 ^ j),Nat.testBit_two_pow_of_ne (by omega),
      Nat.testBit_lt_two_pow (by omega : r < 2 ^ j)]
    rfl

theorem ffs_odd_mul (r t : Nat) : ffs ((2 * r + 1) * 2 ^ t) = t := by
  induction t with
  | zero => rw [ffs,Nat.pow_zero,Nat.mul_one,if_pos (.inr (by omega))]
  | succ t ih =>
    have half : (2 * r + 1) * 2 ^ (t + 1) / 2 = (2 * r + 1) * 2 ^ t := by
      rw [Nat.pow_succ,← Nat.mul_assoc,Nat.mul_div_cancel _ (by decide)]
    have even : (2 * r + 1) * 2 ^ (t + 1) % 2 = 0 := by
      rw [Nat.pow_succ,← Nat.mul_assoc,Nat.mul_mod_left]
    have pos : 0 < (2 * r + 1) * 2 ^ (t + 1) := by positivity
    rw [ffs,if_neg (by omega),half,ih]

theorem odd_mul_ffs {c : Nat} (pos : 0 < c) : (2 * (c / 2 ^ (ffs c + 1)) + 1) * 2 ^ ffs c = c := by
  induction c using Nat.strong_induction_on with
  | _ c ih =>
    rw [ffs]
    split_ifs with stop
    · simp only [Nat.zero_add,Nat.pow_one,Nat.pow_zero,Nat.mul_one]
      omega
    · have inner := ih (c / 2) (by omega) (by omega)
      have quotient : c / 2 ^ (ffs (c / 2) + 1 + 1) = c / 2 / 2 ^ (ffs (c / 2) + 1) := by
        rw [Nat.div_div_eq_div_mul,← Nat.pow_succ']
      have double : ∀ q, q * 2 ^ (ffs (c / 2) + 1) = q * 2 ^ ffs (c / 2) * 2 := fun q => by
        rw [Nat.pow_succ,Nat.mul_assoc]
      rw [quotient,double,inner]
      omega

end Bits

section Positions

-- Node 2 ^ b + r (depth b) in the order of the complete tree of height h, and the
-- positions squeezed past extra, where the last level's missing leaves would be.
def completePos (h b r : Nat) : Nat := (2 * r + 1) * 2 ^ (h - b)

def compress (extra c : Nat) : Nat := if extra < c then c - (c - extra + 1) / 2 else c

def uncompress (extra l : Nat) : Nat := if extra < l then 2 * l - extra else l

theorem rawEytzinger1ToInorder_eq {b r : Nat} (lt : r < 2 ^ b) (size extra : Nat) :
    rawEytzinger1ToInorder (2 ^ b + r) size extra = compress extra (completePos size.log2 b r) := by
  have shifted : (((2 ^ b + r) ^^^ (1 <<< (2 ^ b + r).log2)) <<< 1 ||| 1) <<< (size.log2 - (2 ^ b + r).log2) =
      completePos size.log2 b r := by
    rw [log2_two_pow_add lt,Nat.one_shiftLeft,two_pow_add_xor lt,
      ← Nat.shiftLeft_add_eq_or_of_lt (by decide : 1 < 2 ^ 1),Nat.shiftLeft_eq,Nat.shiftLeft_eq,completePos]
    ring
  unfold rawEytzinger1ToInorder
  dsimp only
  rw [shifted,Int.shiftRight_eq_div_pow,compress]
  split_ifs <;> omega

theorem rawInorderToEytzinger1_eq (l size extra : Nat) :
    rawInorderToEytzinger1 l size extra =
      uncompress extra l / 2 ^ (ffs (uncompress extra l) + 1) ||| 2 ^ (size.log2 - ffs (uncompress extra l)) := by
  have unsquashed : ((l : Int) - if (extra : Int) - l < 0 then (extra : Int) - l else 0).toNat = uncompress extra l := by
    unfold uncompress
    split_ifs <;> omega
  unfold rawInorderToEytzinger1
  dsimp only
  rw [unsquashed,Nat.shiftRight_eq_div_pow,Nat.one_shiftLeft]

theorem odd_mul_div (q t : Nat) : (2 * q + 1) * 2 ^ t / 2 ^ (t + 1) = q := by
  rw [Nat.pow_succ',Nat.mul_comm 2,Nat.mul_div_mul_right _ _ (by positivity)]
  omega

variable {n : Nat}

theorem eytzinger1Extra_eq (pos : 0 < n) : eytzinger1Extra n = 2 * (n + 1 - 2 ^ n.log2) := by
  rw [eytzinger1Extra,if_neg (by omega),Nat.shiftLeft_eq,Nat.pow_one,Nat.mul_comm]

theorem two_pow_log2_le (pos : 0 < n) : 2 ^ n.log2 ≤ n := Nat.log2_self_le (by omega)

theorem lt_two_mul_two_pow_log2 : n < 2 * 2 ^ n.log2 := by
  have := @Nat.lt_log2_self n
  rwa [Nat.pow_succ,Nat.mul_comm] at this

-- The positions of the complete tree that the tree of n nodes has.
def Present (n c : Nat) : Prop := 0 < c ∧ c < 2 * 2 ^ n.log2 ∧ (c % 2 = 1 → c < eytzinger1Extra n)

theorem completePos_present (pos : 0 < n) {b r : Nat} (lt : r < 2 ^ b) (inside : 2 ^ b + r ≤ n) :
    b ≤ n.log2 ∧ Present n (completePos n.log2 b r) := by
  have height : b ≤ n.log2 := (Nat.le_log2 (by omega)).mpr (by omega)
  have split : 2 ^ n.log2 = 2 ^ (n.log2 - b) * 2 ^ b := by rw [← Nat.pow_add,Nat.sub_add_cancel height]
  have scale := Nat.two_pow_pos (n.log2 - b)
  refine ⟨height,by unfold completePos; positivity,?_,fun odd => ?_⟩
  · unfold completePos
    rw [split]
    nlinarith
  · -- an odd position is a leaf of the last level
    have last : n.log2 - b = 0 := by
      by_contra deeper
      obtain ⟨d,hd⟩ := Nat.exists_eq_succ_of_ne_zero deeper
      unfold completePos at odd
      rw [hd,Nat.pow_succ,← Nat.mul_assoc,Nat.mul_mod_left] at odd
      cases odd
    have := two_pow_log2_le pos
    have same : b = n.log2 := by omega
    unfold completePos
    rw [eytzinger1Extra_eq pos,last,Nat.pow_zero,Nat.mul_one]
    rw [same] at inside
    omega

section Squeeze

variable (pos : 0 < n)
include pos

theorem uncompress_compress {c : Nat} (present : Present n c) :
    uncompress (eytzinger1Extra n) (compress (eytzinger1Extra n) c) = c := by
  obtain ⟨_,_,odd⟩ := present
  rw [eytzinger1Extra_eq pos] at odd ⊢
  unfold compress uncompress
  split_ifs <;> omega

theorem compress_mem {c : Nat} (present : Present n c) :
    0 < compress (eytzinger1Extra n) c ∧ compress (eytzinger1Extra n) c ≤ n := by
  obtain ⟨_,_,odd⟩ := present
  have := two_pow_log2_le pos
  have := @lt_two_mul_two_pow_log2 n
  rw [eytzinger1Extra_eq pos] at odd ⊢
  unfold compress
  split_ifs <;> omega

theorem compress_uncompress (l : Nat) :
    compress (eytzinger1Extra n) (uncompress (eytzinger1Extra n) l) = l := by
  rw [eytzinger1Extra_eq pos]
  unfold compress uncompress
  split_ifs <;> omega

theorem uncompress_present {l : Nat} (lPos : 0 < l) (inside : l ≤ n) : Present n (uncompress (eytzinger1Extra n) l) := by
  have := two_pow_log2_le pos
  have := @lt_two_mul_two_pow_log2 n
  refine ⟨?_,?_,?_⟩ <;> rw [eytzinger1Extra_eq pos] <;> unfold uncompress <;> split_ifs <;> omega

theorem compress_lt_compress {c d : Nat} (presentC : Present n c) (presentD : Present n d) (lt : c < d) :
    compress (eytzinger1Extra n) c < compress (eytzinger1Extra n) d := by
  obtain ⟨_,_,oddC⟩ := presentC
  obtain ⟨_,_,oddD⟩ := presentD
  rw [eytzinger1Extra_eq pos] at oddC oddD ⊢
  unfold compress
  split_ifs <;> omega

end Squeeze

end Positions

section Inorder

variable {n : Nat}

theorem eytzinger1ToInorder_node {b r : Nat} (lt : r < 2 ^ b) :
    eytzinger1ToInorder (2 ^ b + r) n = compress (eytzinger1Extra n) (completePos n.log2 b r) :=
  rawEytzinger1ToInorder_eq lt n _

theorem inorderToEytzinger1_of_uncompress {l q t : Nat} (unsquashed : uncompress (eytzinger1Extra n) l = (2 * q + 1) * 2 ^ t)
    (small : q < 2 ^ (n.log2 - t)) : inorderToEytzinger1 l n = 2 ^ (n.log2 - t) + q := by
  rw [inorderToEytzinger1,rawInorderToEytzinger1_eq,unsquashed,ffs_odd_mul,odd_mul_div,
    Nat.or_two_pow_eq_add_of_lt small,Nat.add_comm]

theorem node_split {e : Nat} (ePos : 0 < e) : 2 ^ e.log2 + (e - 2 ^ e.log2) = e ∧ e - 2 ^ e.log2 < 2 ^ e.log2 := by
  have := Nat.log2_self_le (n := e) (by omega)
  have := @Nat.lt_log2_self e
  rw [Nat.pow_succ] at this
  omega

theorem completePos_left {h b r k t : Nat} (lt : t < 2 ^ k) (height : b + k + 1 ≤ h) :
    completePos h (b + k + 1) (r * 2 ^ (k + 1) + t) < completePos h b r := by
  have split : 2 ^ (h - b) = 2 ^ (k + 1) * 2 ^ (h - (b + k + 1)) := by
    rw [← Nat.pow_add]
    congr 1
    omega
  have wide : 2 * t + 1 < 2 ^ (k + 1) := by
    rw [Nat.pow_succ]
    omega
  unfold completePos
  rw [split,← Nat.mul_assoc]
  apply Nat.mul_lt_mul_of_pos_right _ (Nat.two_pow_pos _)
  linarith

theorem completePos_right {h b r k t : Nat} (above : 2 ^ k ≤ t) (height : b + k + 1 ≤ h) :
    completePos h b r < completePos h (b + k + 1) (r * 2 ^ (k + 1) + t) := by
  have split : 2 ^ (h - b) = 2 ^ (k + 1) * 2 ^ (h - (b + k + 1)) := by
    rw [← Nat.pow_add]
    congr 1
    omega
  have narrow : 2 ^ (k + 1) ≤ 2 * t := by
    rw [Nat.pow_succ]
    omega
  unfold completePos
  rw [split,← Nat.mul_assoc]
  apply Nat.mul_lt_mul_of_pos_right _ (Nat.two_pow_pos _)
  linarith

theorem inSubtree_left_node {a y : Nat} (sub : InSubtree (2 * a + 1) y) :
    ∃ k t, t < 2 ^ k ∧ y + 1 = (a + 1) * 2 ^ (k + 1) + t := by
  obtain ⟨k,top⟩ := sub
  refine ⟨k,(y + 1) % 2 ^ k,Nat.mod_lt _ (Nat.two_pow_pos k),?_⟩
  have := Nat.div_add_mod (y + 1) (2 ^ k)
  rw [top] at this
  rw [Nat.pow_succ]
  linarith

theorem inSubtree_right_node {a y : Nat} (sub : InSubtree (2 * a + 2) y) :
    ∃ k t, 2 ^ k ≤ t ∧ t < 2 ^ (k + 1) ∧ y + 1 = (a + 1) * 2 ^ (k + 1) + t := by
  obtain ⟨k,top⟩ := sub
  have split := Nat.div_add_mod (y + 1) (2 ^ k)
  have rest := Nat.mod_lt (y + 1) (Nat.two_pow_pos k)
  rw [top] at split
  refine ⟨k,2 ^ k + (y + 1) % 2 ^ k,by omega,by rw [Nat.pow_succ]; omega,?_⟩
  rw [Nat.pow_succ]
  linarith

theorem shifted_node {b r k t : Nat} (lt : r < 2 ^ b) (small : t < 2 ^ (k + 1)) :
    (2 ^ b + r) * 2 ^ (k + 1) + t = 2 ^ (b + k + 1) + (r * 2 ^ (k + 1) + t) ∧
      r * 2 ^ (k + 1) + t < 2 ^ (b + k + 1) := by
  have split : 2 ^ (b + k + 1) = 2 ^ b * 2 ^ (k + 1) := by rw [← Nat.pow_add,Nat.add_assoc]
  have : (r + 1) * 2 ^ (k + 1) ≤ 2 ^ b * 2 ^ (k + 1) := Nat.mul_le_mul_right _ lt
  constructor <;> rw [split] <;> linarith

theorem eytzinger1ToInorder_descendant {b r k t : Nat} (rLt : r < 2 ^ b) (tLt : t < 2 ^ (k + 1)) :
    eytzinger1ToInorder ((2 ^ b + r) * 2 ^ (k + 1) + t) n =
      compress (eytzinger1Extra n) (completePos n.log2 (b + k + 1) (r * 2 ^ (k + 1) + t)) := by
  obtain ⟨shifted,shiftedLt⟩ := shifted_node rLt tLt
  rw [shifted,eytzinger1ToInorder_node shiftedLt]

variable (pos : 0 < n)
include pos

theorem inorder_decode {l : Nat} (lPos : 0 < l) (inside : l ≤ n) :
    ∃ q t, uncompress (eytzinger1Extra n) l = (2 * q + 1) * 2 ^ t ∧ t ≤ n.log2 ∧ q < 2 ^ (n.log2 - t) := by
  obtain ⟨cPos,cLt,_⟩ := uncompress_present pos lPos inside
  have split := odd_mul_ffs cPos
  set c := uncompress (eytzinger1Extra n) l
  set t := ffs c
  set q := c / 2 ^ (t + 1)
  have height : t ≤ n.log2 := by
    by_contra deeper
    have : 2 ^ (n.log2 + 1) ≤ 2 ^ t := Nat.pow_le_pow_right (by decide) (by omega)
    rw [Nat.pow_succ] at this
    nlinarith [Nat.two_pow_pos t]
  refine ⟨q,t,split.symm,height,?_⟩
  have whole : 2 ^ n.log2 = 2 ^ (n.log2 - t) * 2 ^ t := by rw [← Nat.pow_add,Nat.sub_add_cancel height]
  rw [whole] at cLt
  have : (2 * q + 1) * 2 ^ t < (2 * 2 ^ (n.log2 - t)) * 2 ^ t := by linarith
  have := Nat.lt_of_mul_lt_mul_right this
  omega

theorem inorderToEytzinger1_mem {l : Nat} (lPos : 0 < l) (inside : l ≤ n) :
    0 < inorderToEytzinger1 l n ∧ inorderToEytzinger1 l n ≤ n := by
  obtain ⟨q,t,unsquashed,height,small⟩ := inorder_decode pos lPos inside
  rw [inorderToEytzinger1_of_uncompress unsquashed small]
  refine ⟨by positivity,?_⟩
  have := two_pow_log2_le pos
  rcases Nat.eq_zero_or_pos t with rfl | deeper
  · -- an odd position: a leaf of the last level, before extra
    have odd := (uncompress_present pos lPos inside).2.2
    rw [unsquashed,eytzinger1Extra_eq pos,Nat.pow_zero,Nat.mul_one] at odd
    have := odd (by omega)
    rw [Nat.sub_zero]
    omega
  · have : 2 ^ (n.log2 - t) * 2 ≤ 2 ^ n.log2 := by
      rw [← Nat.pow_succ]
      exact Nat.pow_le_pow_right (by decide) (by omega)
    omega

theorem eytzinger1ToInorder_inorderToEytzinger1 {l : Nat} (lPos : 0 < l) (inside : l ≤ n) :
    eytzinger1ToInorder (inorderToEytzinger1 l n) n = l := by
  obtain ⟨q,t,unsquashed,height,small⟩ := inorder_decode pos lPos inside
  rw [inorderToEytzinger1_of_uncompress unsquashed small,eytzinger1ToInorder_node small,completePos,
    Nat.sub_sub_self height,← unsquashed,compress_uncompress pos]

theorem eytzinger1ToInorder_node_mem {b r : Nat} (lt : r < 2 ^ b) (inside : 2 ^ b + r ≤ n) :
    0 < eytzinger1ToInorder (2 ^ b + r) n ∧ eytzinger1ToInorder (2 ^ b + r) n ≤ n := by
  rw [eytzinger1ToInorder_node lt]
  exact compress_mem pos (completePos_present pos lt inside).2

theorem inorderToEytzinger1_node {b r : Nat} (lt : r < 2 ^ b) (inside : 2 ^ b + r ≤ n) :
    inorderToEytzinger1 (eytzinger1ToInorder (2 ^ b + r) n) n = 2 ^ b + r := by
  obtain ⟨height,present⟩ := completePos_present pos lt inside
  have small : r < 2 ^ (n.log2 - (n.log2 - b)) := by rwa [Nat.sub_sub_self height]
  rw [eytzinger1ToInorder_node lt]
  exact (inorderToEytzinger1_of_uncompress (uncompress_compress pos present) small).trans
    (by rw [Nat.sub_sub_self height])

theorem eytzinger1ToInorder_mem {e : Nat} (ePos : 0 < e) (inside : e ≤ n) :
    0 < eytzinger1ToInorder e n ∧ eytzinger1ToInorder e n ≤ n := by
  obtain ⟨whole,lt⟩ := node_split ePos
  have := eytzinger1ToInorder_node_mem pos lt (by rw [whole]; exact inside)
  rwa [whole] at this

theorem inorderToEytzinger1_eytzinger1ToInorder {e : Nat} (ePos : 0 < e) (inside : e ≤ n) :
    inorderToEytzinger1 (eytzinger1ToInorder e n) n = e := by
  obtain ⟨whole,lt⟩ := node_split ePos
  have := inorderToEytzinger1_node pos lt (by rw [whole]; exact inside)
  rwa [whole] at this

theorem eytzinger1ToInorder_descendant_cmp {b r k t : Nat} (rLt : r < 2 ^ b) (tLt : t < 2 ^ (k + 1))
    (inside : (2 ^ b + r) * 2 ^ (k + 1) + t ≤ n) :
    (t < 2 ^ k → eytzinger1ToInorder ((2 ^ b + r) * 2 ^ (k + 1) + t) n < eytzinger1ToInorder (2 ^ b + r) n) ∧
      (2 ^ k ≤ t → eytzinger1ToInorder (2 ^ b + r) n < eytzinger1ToInorder ((2 ^ b + r) * 2 ^ (k + 1) + t) n) := by
  obtain ⟨shifted,shiftedLt⟩ := shifted_node rLt tLt
  obtain ⟨height,presentY⟩ := completePos_present pos shiftedLt (by rw [← shifted]; exact inside)
  have aInside : 2 ^ b + r ≤ n :=
    le_trans (Nat.le_mul_of_pos_right _ (Nat.two_pow_pos _)) (le_trans (Nat.le_add_right _ t) inside)
  have presentA := (completePos_present pos rLt aInside).2
  rw [eytzinger1ToInorder_descendant rLt tLt,eytzinger1ToInorder_node rLt]
  exact ⟨fun left => compress_lt_compress pos presentY presentA (completePos_left left height),
    fun right => compress_lt_compress pos presentA presentY (completePos_right right height)⟩

theorem eytzinger0ToInorder_lt_of_left {a y : Nat} (inside : y < n) (sub : InSubtree (2 * a + 1) y) :
    eytzinger0ToInorder y n < eytzinger0ToInorder a n := by
  obtain ⟨k,t,tLt,below⟩ := inSubtree_left_node sub
  obtain ⟨whole,rLt⟩ := node_split (by omega : 0 < a + 1)
  have before := (eytzinger1ToInorder_descendant_cmp pos rLt
    (tLt.trans (Nat.pow_lt_pow_right (by decide) (by omega))) (by rw [whole,← below]; omega)).1 tLt
  have yPos := (eytzinger1ToInorder_mem pos (by omega : 0 < y + 1) (by omega)).1
  rw [whole,← below] at before
  show eytzinger1ToInorder (y + 1) n - 1 < eytzinger1ToInorder (a + 1) n - 1
  omega

theorem eytzinger0ToInorder_lt_of_right {a y : Nat} (inside : y < n) (sub : InSubtree (2 * a + 2) y) :
    eytzinger0ToInorder a n < eytzinger0ToInorder y n := by
  obtain ⟨k,t,tGe,tLt,below⟩ := inSubtree_right_node sub
  obtain ⟨whole,rLt⟩ := node_split (by omega : 0 < a + 1)
  have after := (eytzinger1ToInorder_descendant_cmp pos rLt tLt (by rw [whole,← below]; omega)).2 tGe
  have aPos := (eytzinger1ToInorder_mem pos (by omega : 0 < a + 1) (by have := sub.le; omega)).1
  rw [whole,← below] at after
  show eytzinger1ToInorder (a + 1) n - 1 < eytzinger1ToInorder (y + 1) n - 1
  omega

end Inorder

section Zero

variable {n : Nat}

theorem inorderToEytzinger0_lt {i : Nat} (inside : i < n) : inorderToEytzinger0 i n < n := by
  have := inorderToEytzinger1_mem (by omega : 0 < n) (by omega : 0 < i + 1) inside
  show inorderToEytzinger1 (i + 1) n - 1 < n
  omega

theorem eytzinger0ToInorder_lt {i : Nat} (inside : i < n) : eytzinger0ToInorder i n < n := by
  have := eytzinger1ToInorder_mem (by omega : 0 < n) (by omega : 0 < i + 1) inside
  show eytzinger1ToInorder (i + 1) n - 1 < n
  omega

theorem eytzinger0ToInorder_inorderToEytzinger0 {i : Nat} (inside : i < n) :
    eytzinger0ToInorder (inorderToEytzinger0 i n) n = i := by
  have := inorderToEytzinger1_mem (by omega : 0 < n) (by omega : 0 < i + 1) inside
  show eytzinger1ToInorder (inorderToEytzinger1 (i + 1) n - 1 + 1) n - 1 = i
  rw [Nat.sub_add_cancel this.1,eytzinger1ToInorder_inorderToEytzinger1 (by omega) (by omega : 0 < i + 1) inside,
    Nat.add_sub_cancel]

theorem inorderToEytzinger0_eytzinger0ToInorder {i : Nat} (inside : i < n) :
    inorderToEytzinger0 (eytzinger0ToInorder i n) n = i := by
  have := eytzinger1ToInorder_mem (by omega : 0 < n) (by omega : 0 < i + 1) inside
  show inorderToEytzinger1 (eytzinger1ToInorder (i + 1) n - 1 + 1) n - 1 = i
  rw [Nat.sub_add_cancel this.1,inorderToEytzinger1_eytzinger1ToInorder (by omega) (by omega : 0 < i + 1) inside,
    Nat.add_sub_cancel]

-- The node of each inorder index, as a permutation that fixes everything from n on.
def inorderPerm (n : Nat) : Equiv.Perm ℕ where
  toFun i := if i < n then inorderToEytzinger0 i n else i
  invFun i := if i < n then eytzinger0ToInorder i n else i
  left_inv i := by
    by_cases inside : i < n
    · simp only [if_pos inside,if_pos (inorderToEytzinger0_lt inside),eytzinger0ToInorder_inorderToEytzinger0 inside]
    · simp only [if_neg inside]
  right_inv i := by
    by_cases inside : i < n
    · simp only [if_pos inside,if_pos (eytzinger0ToInorder_lt inside),inorderToEytzinger0_eytzinger0ToInorder inside]
    · simp only [if_neg inside]

theorem inorderPerm_of_lt {i : Nat} (inside : i < n) : inorderPerm n i = inorderToEytzinger0 i n := if_pos inside

theorem inorderPerm_of_le {i : Nat} (outside : n ≤ i) : inorderPerm n i = i := if_neg (by omega)

end Zero

section Order

variable {α γ : Type} [LinearOrder γ] (key : α → γ)

-- Eytzinger order: read in order, the first n strictly increase by key.
def Sorted (base : Nat → α) (n : Nat) : Prop :=
  ∀ i j, i < j → j < n → key (base (inorderToEytzinger0 i n)) < key (base (inorderToEytzinger0 j n))

-- Eytzinger order with ties: read in order, the first n never decrease by key.
def SortedLe (base : Nat → α) (n : Nat) : Prop :=
  ∀ i j, i ≤ j → j < n → key (base (inorderToEytzinger0 i n)) ≤ key (base (inorderToEytzinger0 j n))

-- The search tree eytzinger0_find walks: smaller keys under each node's left child
-- and larger ones under its right child.
def SearchTree (base : Nat → α) (n : Nat) : Prop :=
  ∀ a y, y < n → (InSubtree (2 * a + 1) y → key (base y) < key (base a)) ∧
    (InSubtree (2 * a + 2) y → key (base a) < key (base y))

variable {key} {base : Nat → α} {n : Nat}

theorem Sorted.lt_of_inorder (sorted : Sorted key base n) {x y : Nat} (xIn : x < n) (yIn : y < n)
    (before : eytzinger0ToInorder x n < eytzinger0ToInorder y n) : key (base x) < key (base y) := by
  have := sorted _ _ before (eytzinger0ToInorder_lt yIn)
  rwa [inorderToEytzinger0_eytzinger0ToInorder xIn,inorderToEytzinger0_eytzinger0ToInorder yIn] at this

theorem Sorted.searchTree (sorted : Sorted key base n) : SearchTree key base n := by
  intro a y inside
  have pos : 0 < n := by omega
  constructor
  · intro sub
    have := sub.le
    exact sorted.lt_of_inorder inside (by omega) (eytzinger0ToInorder_lt_of_left pos inside sub)
  · intro sub
    have := sub.le
    exact sorted.lt_of_inorder (by omega) inside (eytzinger0ToInorder_lt_of_right pos inside sub)

theorem Sorted.injective (sorted : Sorted key base n) {x y : Nat} (xIn : x < n) (yIn : y < n)
    (same : key (base x) = key (base y)) : x = y := by
  rcases Nat.lt_trichotomy (eytzinger0ToInorder x n) (eytzinger0ToInorder y n) with before | equal | after
  · exact absurd same (sorted.lt_of_inorder xIn yIn before).ne
  · rw [← inorderToEytzinger0_eytzinger0ToInorder xIn,equal,inorderToEytzinger0_eytzinger0ToInorder yIn]
  · exact absurd same (sorted.lt_of_inorder yIn xIn after).ne'

theorem Sorted.congr {base' : Nat → α} (sorted : Sorted key base n) (same : ∀ i, i < n → key (base' i) = key (base i)) :
    Sorted key base' n := by
  intro i j before inside
  rw [same _ (inorderToEytzinger0_lt (by omega)),same _ (inorderToEytzinger0_lt inside)]
  exact sorted i j before inside

end Order

section Find

variable {α β : Type}

-- The loop of eytzinger0_find from the zero based node i, the macro's _i being
-- i + 1: left on a search that compares smaller, right on one that compares greater.
def eytzinger0FindFrom (cmp : β → α → Ordering) (base : Nat → α) (nr : Nat) (search : β) (i : Nat) : Nat :=
  if i < nr then
    match cmp search (base i) with
    | .lt => eytzinger0FindFrom cmp base nr search (2 * i + 1)
    | .gt => eytzinger0FindFrom cmp base nr search (2 * i + 2)
    | .eq => i
  else i
termination_by nr - i

def eytzinger0Find (cmp : β → α → Ordering) (base : Nat → α) (nr : Nat) (search : β) : Nat :=
  eytzinger0FindFrom cmp base nr search 0

variable {cmp : β → α → Ordering} {base : Nat → α} {nr : Nat} {search : β}

theorem eytzinger0FindFrom_found (i : Nat) (found : eytzinger0FindFrom cmp base nr search i < nr) :
    cmp search (base (eytzinger0FindFrom cmp base nr search i)) = .eq := by
  by_cases inside : i < nr
  · rw [eytzinger0FindFrom,if_pos inside] at found ⊢
    cases step : cmp search (base i) with
    | lt =>
      simp only [step] at found ⊢
      exact eytzinger0FindFrom_found (2 * i + 1) found
    | gt =>
      simp only [step] at found ⊢
      exact eytzinger0FindFrom_found (2 * i + 2) found
    | eq =>
      simp only [step]
  · rw [eytzinger0FindFrom,if_neg inside] at found
    omega
termination_by nr - i

theorem eytzinger0Find_found (found : eytzinger0Find cmp base nr search < nr) :
    cmp search (base (eytzinger0Find cmp base nr search)) = .eq :=
  eytzinger0FindFrom_found 0 found

theorem eytzinger0Find_of_absent (absent : ∀ e, e < nr → cmp search (base e) ≠ .eq) :
    nr ≤ eytzinger0Find cmp base nr search := by
  by_contra outside
  have found : eytzinger0Find cmp base nr search < nr := by omega
  exact absent _ found (eytzinger0Find_found found)

variable {γ : Type} [LinearOrder γ] {key : α → γ} {searchKey : β → γ}

theorem eytzinger0FindFrom_of_mem (tree : SearchTree key base nr) {e : Nat} (inside : e < nr)
    (hit : searchKey search = key (base e)) (i : Nat) (sub : InSubtree i e) :
    eytzinger0FindFrom (fun s x => compare (searchKey s) (key x)) base nr search i = e := by
  have iInside : i < nr := by have := sub.le; omega
  rw [eytzinger0FindFrom,if_pos iInside]
  by_cases here : e = i
  · subst here
    have same : compare (searchKey search) (key (base e)) = .eq := compare_eq_iff_eq.mpr hit
    simp only [same]
  · rcases sub.child here with left | right
    · have smaller : compare (searchKey search) (key (base i)) = .lt := by
        rw [hit,compare_lt_iff_lt]
        exact (tree i e inside).1 left
      simp only [smaller]
      exact eytzinger0FindFrom_of_mem tree inside hit (2 * i + 1) left
    · have larger : compare (searchKey search) (key (base i)) = .gt := by
        rw [hit,compare_gt_iff_gt]
        exact (tree i e inside).2 right
      simp only [larger]
      exact eytzinger0FindFrom_of_mem tree inside hit (2 * i + 2) right
termination_by nr - i
decreasing_by all_goals omega

theorem eytzinger0Find_of_mem (tree : SearchTree key base nr) {e : Nat} (inside : e < nr)
    (hit : searchKey search = key (base e)) :
    eytzinger0Find (fun s x => compare (searchKey s) (key x)) base nr search = e :=
  eytzinger0FindFrom_of_mem tree inside hit 0 (inSubtree_zero e)

end Find

end Eytzinger
