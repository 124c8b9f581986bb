import Bcachefs.Lib.Eytzinger

namespace Eytzinger

-- A one based node of depth at most h, placed in order in the complete tree of height h:
-- its position there plus 2 ^ (h + 1), which makes the formula the same at every depth.
def treePos (h x : Nat) : Nat := (2 * x + 1) * 2 ^ (h - x.log2)

section Positions

theorem completePos_add_two_pow {x h : Nat} (pos : 0 < x) (depth : x.log2 ≤ h) :
    completePos h x.log2 (x - 2 ^ x.log2) + 2 ^ (h + 1) = treePos h x := by
  have low := Nat.log2_self_le (n := x) (by omega)
  have split : 2 ^ (h + 1) = 2 ^ (x.log2 + 1) * 2 ^ (h - x.log2) := by
    rw [← Nat.pow_add]
    congr 1
    omega
  unfold completePos treePos
  rw [split,Nat.pow_succ,← Nat.add_mul]
  congr 1
  omega

theorem two_pow_succ_le_treePos {x h : Nat} (pos : 0 < x) (depth : x.log2 ≤ h) : 2 ^ (h + 1) ≤ treePos h x := by
  rw [← completePos_add_two_pow pos depth]
  omega

theorem log2_mul_two_pow_add {x j : Nat} (pos : 0 < x) (c : Nat) (small : c < 2 ^ j) :
    (x * 2 ^ j + c).log2 = x.log2 + j := by
  have low := Nat.log2_self_le (n := x) (by omega)
  have high : (x + 1) * 2 ^ j ≤ 2 ^ (x.log2 + 1) * 2 ^ j := Nat.mul_le_mul_right _ (@Nat.lt_log2_self x)
  rw [Nat.log2_eq_iff (by positivity)]
  constructor
  · rw [Nat.pow_add]
    nlinarith [Nat.two_pow_pos j]
  · rw [show x.log2 + j + 1 = x.log2 + 1 + j by omega,Nat.pow_add]
    nlinarith [Nat.two_pow_pos j]

theorem treePos_right_edge {x h j : Nat} (pos : 0 < x) (depth : x.log2 + 1 + j ≤ h) :
    treePos h (x * 2 ^ (j + 1) + 2 ^ j) = treePos h x + 2 ^ (h - x.log2 - 1 - j) := by
  have log := log2_mul_two_pow_add (j := j + 1) pos (2 ^ j) (by have := Nat.two_pow_pos j; rw [Nat.pow_succ]; omega)
  have split : 2 ^ (h - x.log2) = 2 ^ (j + 1) * 2 ^ (h - x.log2 - 1 - j) := by
    rw [← Nat.pow_add]
    congr 1
    omega
  unfold treePos
  rw [log,split,show h - (x.log2 + (j + 1)) = h - x.log2 - 1 - j by omega,Nat.pow_succ]
  ring

theorem treePos_left_edge {x h j : Nat} (pos : 0 < x) (depth : x.log2 + 1 + j ≤ h) :
    treePos h (x * 2 ^ (j + 1) + (2 ^ j - 1)) + 2 ^ (h - x.log2 - 1 - j) = treePos h x := by
  have log := log2_mul_two_pow_add (j := j + 1) pos (2 ^ j - 1) (by have := Nat.two_pow_pos j; rw [Nat.pow_succ]; omega)
  have split : 2 ^ (h - x.log2) = 2 ^ (j + 1) * 2 ^ (h - x.log2 - 1 - j) := by
    rw [← Nat.pow_add]
    congr 1
    omega
  obtain ⟨p,hp⟩ : ∃ p, 2 ^ j = p + 1 := ⟨2 ^ j - 1,by have := Nat.two_pow_pos j; omega⟩
  unfold treePos
  rw [log,split,show h - (x.log2 + (j + 1)) = h - x.log2 - 1 - j by omega,Nat.pow_succ,hp,Nat.add_sub_cancel]
  ring

end Positions

section Ranks

variable {n : Nat}

theorem eytzinger1ToInorder_treePos {x : Nat} (pos : 0 < x) (depth : x.log2 ≤ n.log2) :
    eytzinger1ToInorder x n = compress (eytzinger1Extra n) (treePos n.log2 x - 2 ^ (n.log2 + 1)) := by
  obtain ⟨whole,lt⟩ := node_split pos
  have := eytzinger1ToInorder_node (n := n) lt
  rw [whole] at this
  rw [this,← completePos_add_two_pow pos depth,Nat.add_sub_cancel]

theorem present_treePos (pos : 0 < n) {x : Nat} (xPos : 0 < x) (inside : x ≤ n) :
    x.log2 ≤ n.log2 ∧ Present n (treePos n.log2 x - 2 ^ (n.log2 + 1)) := by
  obtain ⟨whole,lt⟩ := node_split xPos
  obtain ⟨depth,present⟩ := completePos_present pos lt (by rw [whole]; exact inside)
  refine ⟨depth,?_⟩
  rwa [← completePos_add_two_pow xPos depth,Nat.add_sub_cancel]

theorem not_present_treePos (pos : 0 < n) {x : Nat} (depth : x.log2 = n.log2) (outside : n < x) :
    ¬ Present n (treePos n.log2 x - 2 ^ (n.log2 + 1)) := by
  have xPos : 0 < x := by omega
  have low := Nat.log2_self_le (n := x) (by omega)
  intro ⟨_,_,odd⟩
  rw [← completePos_add_two_pow xPos (le_of_eq depth),Nat.add_sub_cancel,completePos,depth,Nat.sub_self,
    Nat.pow_zero,Nat.mul_one,eytzinger1Extra_eq pos] at odd
  have := odd (by omega)
  rw [← depth] at this
  omega

theorem compress_succ (pos : 0 < n) {c : Nat} (present : Present n c) (next : Present n (c + 1)) :
    compress (eytzinger1Extra n) (c + 1) = compress (eytzinger1Extra n) c + 1 := by
  obtain ⟨_,_,odd⟩ := present
  obtain ⟨_,_,oddNext⟩ := next
  rw [eytzinger1Extra_eq pos] at odd oddNext ⊢
  unfold compress
  split_ifs <;> omega

theorem compress_add_two (pos : 0 < n) {c : Nat} (present : Present n c) (hole : ¬ Present n (c + 1))
    (next : Present n (c + 2)) : compress (eytzinger1Extra n) (c + 2) = compress (eytzinger1Extra n) c + 1 := by
  obtain ⟨cPos,_,odd⟩ := present
  obtain ⟨_,top,_⟩ := next
  have gap : (c + 1) % 2 = 1 ∧ eytzinger1Extra n ≤ c + 1 := by
    by_contra inside
    exact hole ⟨by omega,by omega,fun oddNext => by omega⟩
  rw [eytzinger1Extra_eq pos] at odd gap ⊢
  unfold compress
  split_ifs <;> omega

theorem compress_one (pos : 0 < n) : compress (eytzinger1Extra n) 1 = 1 := by
  have := two_pow_log2_le pos
  rw [eytzinger1Extra_eq pos]
  unfold compress
  split_ifs <;> omega

theorem compress_top (pos : 0 < n) {c : Nat} (present : Present n c)
    (last : ∀ d, c < d → d < 2 * 2 ^ n.log2 → ¬ Present n d) : compress (eytzinger1Extra n) c = n := by
  obtain ⟨_,cLt,odd⟩ := present
  have low := two_pow_log2_le pos
  have high := @lt_two_mul_two_pow_log2 n
  -- every even position above c would be present
  have near : 2 * 2 ^ n.log2 ≤ c + 2 := by
    by_contra far
    by_cases even : (c + 1) % 2 = 0
    · exact last (c + 1) (by omega) (by omega) ⟨by omega,by omega,fun odd' => by omega⟩
    · exact last (c + 2) (by omega) (by omega) ⟨by omega,by omega,fun odd' => by omega⟩
  by_cases top : c + 1 < 2 * 2 ^ n.log2
  · have hole : ¬ (eytzinger1Extra n > c + 1) := fun above =>
      last (c + 1) (by omega) top ⟨by omega,top,fun _ => above⟩
    rw [eytzinger1Extra_eq pos] at odd hole ⊢
    unfold compress
    split_ifs <;> omega
  · rw [eytzinger1Extra_eq pos] at odd ⊢
    have := odd (by omega)
    unfold compress
    split_ifs <;> omega

variable (pos : 0 < n)
include pos

theorem eytzinger1ToInorder_of_treePos_succ {x y : Nat} (xPos : 0 < x) (xIn : x ≤ n) (yPos : 0 < y) (yIn : y ≤ n)
    (adjacent : treePos n.log2 y = treePos n.log2 x + 1) :
    eytzinger1ToInorder y n = eytzinger1ToInorder x n + 1 := by
  obtain ⟨xDepth,xPresent⟩ := present_treePos pos xPos xIn
  obtain ⟨yDepth,yPresent⟩ := present_treePos pos yPos yIn
  have xAbove := two_pow_succ_le_treePos xPos xDepth
  have shift : treePos n.log2 y - 2 ^ (n.log2 + 1) = treePos n.log2 x - 2 ^ (n.log2 + 1) + 1 := by omega
  rw [shift] at yPresent
  rw [eytzinger1ToInorder_treePos xPos xDepth,eytzinger1ToInorder_treePos yPos yDepth,shift,
    compress_succ pos xPresent yPresent]

theorem eytzinger1ToInorder_of_treePos_add_two {x y : Nat} (xPos : 0 < x) (xIn : x ≤ n) (yPos : 0 < y) (yIn : y ≤ n)
    (hole : ¬ Present n (treePos n.log2 x - 2 ^ (n.log2 + 1) + 1)) (adjacent : treePos n.log2 y = treePos n.log2 x + 2) :
    eytzinger1ToInorder y n = eytzinger1ToInorder x n + 1 := by
  obtain ⟨xDepth,xPresent⟩ := present_treePos pos xPos xIn
  obtain ⟨yDepth,yPresent⟩ := present_treePos pos yPos yIn
  have xAbove := two_pow_succ_le_treePos xPos xDepth
  have shift : treePos n.log2 y - 2 ^ (n.log2 + 1) = treePos n.log2 x - 2 ^ (n.log2 + 1) + 2 := by omega
  rw [shift] at yPresent
  rw [eytzinger1ToInorder_treePos xPos xDepth,eytzinger1ToInorder_treePos yPos yDepth,shift,
    compress_add_two pos xPresent hole yPresent]

end Ranks

end Eytzinger
