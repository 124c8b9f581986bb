import Mathlib
import Bcachefs.Lib.Eytzinger

namespace Eytzinger

open HeapSort

variable {α : Type} (cmp : α → α → Ordering)

section Loops

-- eytzinger1_do_cmp and eytzinger1_do_swap at inorder indices l and r: the node
-- inorder_to_eytzinger1 names, in base1, which is base moved by one.
def eytzinger1DoCmp (base : Nat → α) (n l r : Nat) : Ordering :=
  cmp (base (inorderToEytzinger1 l n - 1)) (base (inorderToEytzinger1 r n - 1))

def eytzinger1DoSwap (base : Nat → α) (n l r : Nat) : Nat → α :=
  swap base (inorderToEytzinger1 l n - 1) (inorderToEytzinger1 r n - 1)

-- Find the sift-down path all the way to the leaves: the child that compares
-- greater, else the right one, while both lie below lim (k < n in the heapify
-- loop, k + 1 < i in the sort loop). j is a node, never 0.
def siftDownPath (base : Nat → α) (n lim j : Nat) : Nat :=
  if 0 < j ∧ j * 2 < lim then
    siftDownPath base n lim (if eytzinger1DoCmp cmp base n (j * 2) (j * 2 + 1) = .gt then j * 2 else j * 2 + 1)
  else j
termination_by lim - j
decreasing_by split <;> omega

-- Backtrack to the correct location. Every j here lies under i, where j != i is i < j.
def backtrackTo (base : Nat → α) (n i j : Nat) : Nat :=
  if i < j ∧ eytzinger1DoCmp cmp base n i j != .lt then backtrackTo base n i (j / 2) else j
termination_by j

-- The sort loop's backtrack, which compares at the root too and then ends at 0.
def backtrackRoot (base : Nat → α) (n j : Nat) : Nat :=
  if 1 ≤ j ∧ eytzinger1DoCmp cmp base n 1 j != .lt then backtrackRoot base n (j / 2) else j
termination_by j

-- Shift the element into its correct place: for (k = j; j != i;) { j /= 2;
-- do_swap(j, k); }, with i = 1 for the sort loop's j > 1.
def shiftInto (base : Nat → α) (n i k j : Nat) : Nat → α :=
  if i < j then shiftInto (eytzinger1DoSwap base n (j / 2) k) n i k (j / 2) else base
termination_by j

def heapifyStep (base : Nat → α) (n i : Nat) : Nat → α :=
  let j := siftDownPath cmp base n n i
  -- the last leaf with no sibling
  let j := if j * 2 = n then j * 2 else j
  let j := backtrackTo cmp base n i j
  shiftInto base n i j j

-- The sort loop at i: the root goes to i and what comes up sifts down.
def sortStep (base : Nat → α) (n i : Nat) : Nat → α :=
  let base := eytzinger1DoSwap base n 1 i
  let j := siftDownPath cmp base n (i - 1) 1
  let j := if j * 2 + 1 = i then j * 2 else j
  let j := backtrackRoot cmp base n j
  shiftInto base n 1 j j

-- for (i = n / 2; i >= 1; --i)
def heapify (base : Nat → α) (n i : Nat) : Nat → α :=
  if 0 < i then heapify (heapifyStep cmp base n i) n (i - 1) else base
termination_by i

-- for (i = n; i > 1; --i)
def sortLoop (base : Nat → α) (n i : Nat) : Nat → α :=
  if 1 < i then sortLoop (sortStep cmp base n i) n (i - 1) else base
termination_by i

-- eytzinger0_sort: eytzinger1_sort_r on base - size.
def eytzinger0Sort (base : Nat → α) (n : Nat) : Nat → α :=
  sortLoop cmp (heapify cmp base n (n / 2)) n n

end Loops

section View

-- The array as the sort sees it: by inorder index, zero based.
def view (base : Nat → α) (n : Nat) : Nat → α := base ∘ inorderPerm n

variable {cmp} {n : Nat}

theorem inorderToEytzinger1_sub_one {l : Nat} (lPos : 0 < l) (inside : l ≤ n) :
    inorderToEytzinger1 l n - 1 = inorderPerm n (l - 1) := by
  rw [inorderPerm_of_lt (by omega)]
  show _ = inorderToEytzinger1 (l - 1 + 1) n - 1
  rw [Nat.sub_add_cancel lPos]

theorem eytzinger1DoCmp_eq (base : Nat → α) {l r : Nat} (lPos : 0 < l) (lIn : l ≤ n) (rPos : 0 < r) (rIn : r ≤ n) :
    eytzinger1DoCmp cmp base n l r = cmp (view base n (l - 1)) (view base n (r - 1)) := by
  rw [eytzinger1DoCmp,inorderToEytzinger1_sub_one lPos lIn,inorderToEytzinger1_sub_one rPos rIn]
  rfl

theorem view_eytzinger1DoSwap (base : Nat → α) {l r : Nat} (lPos : 0 < l) (lIn : l ≤ n) (rPos : 0 < r) (rIn : r ≤ n) :
    view (eytzinger1DoSwap base n l r) n = swap (view base n) (l - 1) (r - 1) := by
  funext b
  rw [eytzinger1DoSwap,inorderToEytzinger1_sub_one lPos lIn,inorderToEytzinger1_sub_one rPos rIn]
  simp only [view,swap,Function.comp_apply]
  rw [(inorderPerm n).injective.swap_apply]

end View

section Simulation

variable {cmp} {n : Nat}

-- The comparisons the loops make, as HeapSort takes them: the descent's
-- cmp > 0 and the backtrack's cmp >= 0.
def cmpGt (cmp : α → α → Ordering) (x y : α) : Bool := cmp x y == .gt

def cmpGe (cmp : α → α → Ordering) (x y : α) : Bool := cmp x y != .lt

theorem parent_sub_one {j : Nat} (two : 2 ≤ j) : parent (j - 1) = j / 2 - 1 := by
  unfold parent
  omega

theorem siftDownPath_step (base : Nat → α) {lim j : Nat} (pos : 0 < j) (down : j * 2 < lim) :
    siftDownPath cmp base n lim j =
      siftDownPath cmp base n lim (if eytzinger1DoCmp cmp base n (j * 2) (j * 2 + 1) = .gt then j * 2 else j * 2 + 1) := by
  rw [siftDownPath,if_pos (show 0 < j ∧ j * 2 < lim from ⟨pos,down⟩)]

theorem siftDownPath_stop (base : Nat → α) {lim j : Nat} (stop : ¬ j * 2 < lim) : siftDownPath cmp base n lim j = j := by
  rw [siftDownPath,if_neg (fun both => stop both.2)]

-- A child is taken only while it lies within lim, so the path never leaves it.
theorem siftDownPath_le (base : Nat → α) {lim j : Nat} (inside : j ≤ lim) : siftDownPath cmp base n lim j ≤ lim := by
  by_cases down : 0 < j ∧ j * 2 < lim
  · rw [siftDownPath_step base down.1 down.2]
    exact siftDownPath_le base (by split <;> omega)
  · rw [siftDownPath,if_neg down]
    exact inside
termination_by lim - j
decreasing_by split <;> omega

theorem siftDownPath_descend (base : Nat → α) {lim j : Nat} (pos : 0 < j) (limLe : lim ≤ n) :
    (if siftDownPath cmp base n lim j * 2 = lim then siftDownPath cmp base n lim j * 2
      else siftDownPath cmp base n lim j) = descend (cmpGt cmp) (view base n) lim (j - 1) + 1 := by
  by_cases down : j * 2 < lim
  · have compared : eytzinger1DoCmp cmp base n (j * 2) (j * 2 + 1) =
        cmp (view base n (2 * (j - 1) + 1)) (view base n (2 * (j - 1) + 2)) := by
      rw [eytzinger1DoCmp_eq (l := j * 2) (r := j * 2 + 1) base (by omega) (by omega) (by omega) (by omega)]
      congr 2 <;> omega
    rw [siftDownPath_step base pos down,compared,descend,if_pos (by omega : 2 * (j - 1) + 2 < lim)]
    by_cases greater : cmp (view base n (2 * (j - 1) + 1)) (view base n (2 * (j - 1) + 2)) = .gt
    · have picks : cmpGt cmp (view base n (2 * (j - 1) + 1)) (view base n (2 * (j - 1) + 2)) = true := by
        simp [cmpGt,greater]
      rw [if_pos greater,siftDownPath_descend base (j := j * 2) (by omega) limLe,if_pos picks]
      congr 2
      omega
    · have picks : cmpGt cmp (view base n (2 * (j - 1) + 1)) (view base n (2 * (j - 1) + 2)) = false := by
        simp [cmpGt,greater]
      rw [if_neg greater,siftDownPath_descend base (j := j * 2 + 1) (by omega) limLe,picks,if_neg (by simp)]
      congr 2
      omega
  · rw [siftDownPath_stop base down,descend,if_neg (show ¬ 2 * (j - 1) + 2 < lim by omega)]
    by_cases last : j * 2 = lim
    · rw [if_pos last,if_pos (show 2 * (j - 1) + 2 = lim by omega)]
      omega
    · rw [if_neg last,if_neg (show ¬ 2 * (j - 1) + 2 = lim by omega)]
      omega
termination_by lim - j

theorem backtrackTo_up (base : Nat → α) {i j : Nat} (below : i < j) (up : eytzinger1DoCmp cmp base n i j != .lt) :
    backtrackTo cmp base n i j = backtrackTo cmp base n i (j / 2) := by
  rw [backtrackTo,if_pos (show i < j ∧ _ from ⟨below,up⟩)]

theorem backtrackTo_stop (base : Nat → α) {i j : Nat} (stop : ¬ (i < j ∧ eytzinger1DoCmp cmp base n i j != .lt)) :
    backtrackTo cmp base n i j = j := by
  rw [backtrackTo,if_neg stop]

theorem backtrackRoot_up (base : Nat → α) {j : Nat} (pos : 1 ≤ j) (up : eytzinger1DoCmp cmp base n 1 j != .lt) :
    backtrackRoot cmp base n j = backtrackRoot cmp base n (j / 2) := by
  rw [backtrackRoot,if_pos (show 1 ≤ j ∧ _ from ⟨pos,up⟩)]

theorem backtrackRoot_stop (base : Nat → α) {j : Nat} (stop : ¬ (1 ≤ j ∧ eytzinger1DoCmp cmp base n 1 j != .lt)) :
    backtrackRoot cmp base n j = j := by
  rw [backtrackRoot,if_neg stop]

theorem backtrackTo_backtrack (base : Nat → α) {i j : Nat} (iPos : 0 < i) (jPos : 0 < j) (jIn : j ≤ n) :
    backtrackTo cmp base n i j = backtrack (cmpGe cmp) (view base n) (i - 1) (j - 1) + 1 := by
  by_cases below : i < j
  · have compared : eytzinger1DoCmp cmp base n i j = cmp (view base n (i - 1)) (view base n (j - 1)) :=
      eytzinger1DoCmp_eq base iPos (by omega) jPos jIn
    by_cases up : cmpGe cmp (view base n (i - 1)) (view base n (j - 1)) = true
    · rw [backtrackTo_up base below (by rw [compared]; exact up),backtrack_up (by omega) up,
        backtrackTo_backtrack base iPos (by omega) (by omega),parent_sub_one (by omega)]
    · rw [backtrackTo_stop base (fun stays => up (by rw [cmpGe,← compared]; exact stays.2)),
        backtrack_stop (fun stays => up stays.2)]
      omega
  · rw [backtrackTo_stop base (fun stays => below stays.1),backtrack_stop (fun stays => by omega)]
    omega
termination_by j

theorem backtrackRoot_backtrack (refl : ∀ x, cmp x x = .eq) (base : Nat → α) {j : Nat} (jPos : 0 < j) (jIn : j ≤ n) :
    backtrackRoot cmp base n j = if backtrack (cmpGe cmp) (view base n) 0 (j - 1) = 0 then 0
      else backtrack (cmpGe cmp) (view base n) 0 (j - 1) + 1 := by
  have compared : eytzinger1DoCmp cmp base n 1 j = cmp (view base n (1 - 1)) (view base n (j - 1)) :=
    eytzinger1DoCmp_eq base Nat.one_pos (by omega) jPos jIn
  by_cases root : j = 1
  · subst root
    have self : eytzinger1DoCmp cmp base n 1 1 != .lt := by rw [compared,refl]; rfl
    rw [backtrackRoot_up base le_rfl self,backtrackRoot_stop base (fun stays => absurd stays.1 (by decide)),
      Nat.sub_self,backtrack_self,if_pos rfl]
  · by_cases up : cmpGe cmp (view base n 0) (view base n (j - 1)) = true
    · rw [backtrackRoot_up base jPos (by rw [compared]; exact up),backtrack_up (by omega) up,
        backtrackRoot_backtrack refl base (by omega) (by omega),parent_sub_one (by omega)]
    · rw [backtrackRoot_stop base (fun stays => up (by rw [cmpGe,← compared]; exact stays.2)),
        backtrack_stop (fun stays => up stays.2),if_neg (show ¬ j - 1 = 0 by omega)]
      omega
termination_by j

theorem view_shiftInto (base : Nat → α) {i k j : Nat} (iPos : 0 < i) (kPos : 0 < k) (kIn : k ≤ n) (jIn : j ≤ n) :
    view (shiftInto base n i k j) n = shiftUp (view base n) (i - 1) (k - 1) (j - 1) := by
  rw [shiftInto,shiftUp]
  by_cases up : i < j
  · rw [if_pos up,if_pos (by omega),view_shiftInto _ iPos kPos kIn (by omega),
      view_eytzinger1DoSwap base (by omega) (by omega) kPos kIn,parent_sub_one (by omega)]
  · rw [if_neg up,if_neg (by omega)]
termination_by j

theorem view_heapifyStep (base : Nat → α) {i : Nat} (iPos : 0 < i) (iIn : i ≤ n) :
    view (heapifyStep cmp base n i) n = sift (cmpGt cmp) (cmpGe cmp) (view base n) n (i - 1) := by
  obtain ⟨member,descended⟩ := @descend_mem _ (cmpGt cmp) (view base n) n (i - 1)
  have descendIn := descended (by omega)
  have stop := (@backtrack_mem _ (cmpGe cmp) (view base n) (i - 1) _ member).2
  unfold heapifyStep sift
  dsimp only
  rw [siftDownPath_descend base iPos le_rfl,backtrackTo_backtrack base iPos (by omega) (by omega),Nat.add_sub_cancel,
    view_shiftInto base iPos (by omega) (by omega) (by omega),Nat.add_sub_cancel]

theorem view_sortStep (refl : ∀ x, cmp x x = .eq) (base : Nat → α) {i : Nat} (many : 1 < i) (iIn : i ≤ n) :
    view (sortStep cmp base n i) n = sift (cmpGt cmp) (cmpGe cmp) (swap (view base n) 0 (i - 1)) (i - 1) 0 := by
  have swapped : view (eytzinger1DoSwap base n 1 i) n = swap (view base n) 0 (i - 1) :=
    view_eytzinger1DoSwap base Nat.one_pos (by omega) (by omega) iIn
  have special : ∀ p, (if p * 2 + 1 = i then p * 2 else p) = (if p * 2 = i - 1 then p * 2 else p) := by
    intro p
    split_ifs <;> omega
  obtain ⟨member,descended⟩ := @descend_mem _ (cmpGt cmp) (view (eytzinger1DoSwap base n 1 i) n) (i - 1) 0
  have descendIn := descended (by omega)
  have stop := (@backtrack_mem _ (cmpGe cmp) (view (eytzinger1DoSwap base n 1 i) n) 0 _ member).2
  rw [← swapped]
  unfold sortStep sift
  dsimp only
  rw [special,siftDownPath_descend _ Nat.one_pos (by omega),Nat.sub_self,
    backtrackRoot_backtrack refl _ (by omega) (by omega),Nat.add_sub_cancel]
  split_ifs with atRoot
  · rw [atRoot,shiftInto,if_neg (by omega),shiftUp_self]
  · rw [view_shiftInto _ Nat.one_pos (by omega) (by omega) (by omega),Nat.add_sub_cancel]

theorem view_sortLoop (refl : ∀ x, cmp x x = .eq) (base : Nat → α) {m : Nat} (mIn : m ≤ n) :
    view (Eytzinger.sortLoop cmp base n m) n = HeapSort.sortLoop (cmpGt cmp) (cmpGe cmp) (view base n) 0 m := by
  rw [Eytzinger.sortLoop,HeapSort.sortLoop,if_neg (lt_irrefl 0)]
  by_cases more : 1 < m
  · rw [if_pos more,if_pos more,view_sortLoop refl _ (by omega),view_sortStep refl base more mIn]
  · rw [if_neg more,if_neg more]
termination_by m

theorem view_heapify (refl : ∀ x, cmp x x = .eq) (base : Nat → α) {a : Nat} (aIn : a ≤ n) :
    view (Eytzinger.sortLoop cmp (heapify cmp base n a) n n) n =
      HeapSort.sortLoop (cmpGt cmp) (cmpGe cmp) (view base n) a n := by
  rw [heapify]
  by_cases pos : 0 < a
  · rw [if_pos pos,view_heapify refl _ (by omega),view_heapifyStep base pos aIn]
    conv_rhs => rw [HeapSort.sortLoop,if_pos pos]
  · rw [if_neg pos,view_sortLoop refl base le_rfl,show a = 0 by omega]
termination_by a

-- The whole sort is HeapSort's on the array read in order, down the path by
-- cmp > 0 and back up it by cmp >= 0.
theorem view_eytzinger0Sort (refl : ∀ x, cmp x x = .eq) (base : Nat → α) :
    view (eytzinger0Sort cmp base n) n = HeapSort.sortBy (cmpGt cmp) (cmpGe cmp) (view base n) n := by
  rw [eytzinger0Sort,view_heapify refl base (Nat.div_le_self n 2),HeapSort.sortBy]
  split_ifs with few
  · rw [few,HeapSort.sortLoop,if_neg (lt_irrefl 0),if_neg (by omega)]
  · rfl

end Simulation

section Spec

variable {γ : Type} [LinearOrder γ] (key : α → γ) {n : Nat}

theorem cmpGe_compare : cmpGe (fun x y => compare (key x) (key y)) = geOf key := by
  funext x y
  rw [cmpGe,geOf]
  cases order : compare (key x) (key y) with
  | lt => simp [not_le.mpr (compare_lt_iff_lt.mp order)]
  | eq => simp [compare_eq_iff_eq.mp order]
  | gt => simp [(compare_gt_iff_gt.mp order).le]

theorem picksLarger_cmpGt : PicksLarger key (cmpGt fun x y => compare (key x) (key y)) := by
  intro x y
  constructor
  · intro prefers
    have greater : compare (key x) (key y) = .gt := by simpa [cmpGt] using prefers
    exact (compare_gt_iff_gt.mp greater).le
  · intro other
    have notGreater : compare (key x) (key y) ≠ .gt := by simpa [cmpGt] using other
    exact not_lt.mp fun lt => notGreater (compare_gt_iff_gt.mpr lt)

theorem eytzinger0Sort_sortedLe (base : Nat → α) :
    SortedLe key (eytzinger0Sort (fun x y => compare (key x) (key y)) base n) n ∧
      ∃ σ : Equiv.Perm ℕ, (∀ y, n ≤ y → σ y = y) ∧ eytzinger0Sort (fun x y => compare (key x) (key y)) base n = base ∘ σ := by
  have πFixes : ∀ y, n ≤ y → inorderPerm n y = y := fun y out => inorderPerm_of_le out
  obtain ⟨ordered,τ,τFixes,sorted⟩ := sortBy_spec (picksLarger_cmpGt key) (view base n) n
  have result := @view_eytzinger0Sort α (fun x y => compare (key x) (key y)) n
    (fun x => compare_eq_iff_eq.mpr rfl) base
  rw [cmpGe_compare,sorted] at result
  rw [sorted] at ordered
  set out := eytzinger0Sort (fun x y => compare (key x) (key y)) base n
  have atInorder : ∀ i, i < n → out (inorderToEytzinger0 i n) = base (inorderPerm n (τ i)) := by
    intro i iIn
    have := congrFun result i
    simp only [view,Function.comp_apply] at this
    rwa [inorderPerm_of_lt iIn] at this
  refine ⟨fun i j before jIn => ?_,inorderPerm n * τ * (inorderPerm n)⁻¹,fun y out => ?_,?_⟩
  · rw [atInorder i (by omega),atInorder j jIn]
    simpa [view] using ordered i j before jIn
  · have invFixes : (inorderPerm n)⁻¹ y = y := by
      rw [Equiv.Perm.inv_eq_iff_eq,πFixes y out]
    rw [Equiv.Perm.mul_apply,Equiv.Perm.mul_apply,invFixes,τFixes y out,πFixes y out]
  · funext y
    have := congrFun result ((inorderPerm n)⁻¹ y)
    have back : inorderPerm n ((inorderPerm n)⁻¹ y) = y := (Equiv.eq_symm_apply (inorderPerm n)).mp rfl
    simp only [view,Function.comp_apply,back] at this
    rw [this]
    rfl

theorem eytzinger0Sort_spec (base : Nat → α) (distinct : ∀ x y, x < n → y < n → key (base x) = key (base y) → x = y) :
    Sorted key (eytzinger0Sort (fun x y => compare (key x) (key y)) base n) n ∧
      ∃ σ : Equiv.Perm ℕ, (∀ y, n ≤ y → σ y = y) ∧ eytzinger0Sort (fun x y => compare (key x) (key y)) base n = base ∘ σ := by
  obtain ⟨sorted,σ,fixes,result⟩ := eytzinger0Sort_sortedLe key (n := n) base
  have inside : ∀ z, z < n → σ z < n :=
    fun z zIn => perm_mem_of_fixes (S := fun z => z < n) (fun z out => fixes z (by omega)) zIn
  refine ⟨fun i j before jIn => lt_of_le_of_ne (sorted i j before.le jIn) fun same => ?_,σ,fixes,result⟩
  have iIn := inorderToEytzinger0_lt (n := n) (by omega : i < n)
  have jIn' := inorderToEytzinger0_lt jIn
  rw [result] at same
  have nodes := σ.injective (distinct _ _ (inside _ iIn) (inside _ jIn') same)
  have ranks := congrArg (eytzinger0ToInorder · n) nodes
  simp only [eytzinger0ToInorder_inorderToEytzinger0 (by omega : i < n),eytzinger0ToInorder_inorderToEytzinger0 jIn] at ranks
  omega

end Spec

end Eytzinger
