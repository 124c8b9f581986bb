import Mathlib
import Bcachefs.Lib.Eytzinger

namespace Eytzinger

open HeapSort

section Order

variable {α γ : Type} [LinearOrder γ] {key : α → γ} {base : Nat → α} {n : Nat}

theorem SortedLe.le_of_inorder (sorted : SortedLe key base n) {x y : Nat} (xIn : x < n) (yIn : y < n)
    (before : eytzinger0ToInorder x n ≤ eytzinger0ToInorder y n) : key (base x) ≤ key (base y) := by
  have := sorted _ _ before (eytzinger0ToInorder_lt yIn)
  rwa [inorderToEytzinger0_eytzinger0ToInorder xIn,inorderToEytzinger0_eytzinger0ToInorder yIn] at this

end Order

section Decode

-- n >> (__ffs(n) + 1): the node where the path to n last went right, 0 if it never did.
def lastRight (n : Nat) : Nat := n >>> (ffs n + 1)

-- n >> (__ffs(n + 1) + 1): the node where it last went left.
def lastLeft (n : Nat) : Nat := n >>> (ffs (n + 1) + 1)

theorem ffs_two_mul_add_one (m : Nat) : ffs (2 * m + 1) = 0 := by
  rw [ffs,if_pos (.inr (by omega))]

theorem ffs_two_mul {m : Nat} (pos : 0 < m) : ffs (2 * m) = ffs m + 1 := by
  rw [ffs,if_neg (by omega),Nat.mul_div_cancel_left m (by decide)]

theorem shiftRight_succ_of_half {x m : Nat} (half : x / 2 = m) (k : Nat) : x >>> (k + 1) = m >>> k := by
  rw [Nat.shiftRight_eq_div_pow,Nat.shiftRight_eq_div_pow,Nat.pow_succ',← Nat.div_div_eq_div_mul,half]

theorem lastRight_right (m : Nat) : lastRight (2 * m + 1) = m := by
  rw [lastRight,ffs_two_mul_add_one,shiftRight_succ_of_half (m := m) (by omega),Nat.shiftRight_zero]

theorem lastRight_left {m : Nat} (pos : 0 < m) : lastRight (2 * m) = lastRight m := by
  rw [lastRight,lastRight,ffs_two_mul pos,shiftRight_succ_of_half (m := m) (by omega)]

theorem lastLeft_left (m : Nat) : lastLeft (2 * m) = m := by
  rw [lastLeft,ffs_two_mul_add_one,shiftRight_succ_of_half (m := m) (by omega),Nat.shiftRight_zero]

theorem lastLeft_right (m : Nat) : lastLeft (2 * m + 1) = lastLeft m := by
  rw [lastLeft,lastLeft,show 2 * m + 1 + 1 = 2 * (m + 1) by ring,ffs_two_mul (by omega),
    shiftRight_succ_of_half (m := m) (by omega)]

end Decode

section Descent

variable (right : Nat → Bool) (nr : Nat)

-- The descent of eytzinger0_find_le, _gt and _ge from the zero based node i (C's n
-- is i + 1): to the right child where right holds, to the left one elsewhere.
def searchDescend (i : Nat) : Nat :=
  if i < nr then searchDescend (if right i then 2 * i + 2 else 2 * i + 1) else i
termination_by nr - i
decreasing_by split <;> omega

-- What the search needs of the array: the nodes right holds at come first in order.
def RightFirst : Prop :=
  ∀ x y, x < nr → y < nr → eytzinger0ToInorder x nr ≤ eytzinger0ToInorder y nr → right y = true → right x = true

-- The node of greatest rank that right holds at, none when it holds nowhere.
def LastRight : Option Nat → Prop
  | none => ∀ y, y < nr → right y = false
  | some l => l < nr ∧ right l = true ∧
      ∀ y, y < nr → right y = true → eytzinger0ToInorder y nr ≤ eytzinger0ToInorder l nr

-- The node of least rank that right fails at, none when it holds everywhere.
def FirstLeft : Option Nat → Prop
  | none => ∀ y, y < nr → right y = true
  | some l => l < nr ∧ right l = false ∧
      ∀ y, y < nr → right y = false → eytzinger0ToInorder l nr ≤ eytzinger0ToInorder y nr

-- The descent at node i, lo being the last node it went right at: every node right
-- holds at lies under i or ranks no later than lo.
def Behind (i : Nat) : Option Nat → Prop
  | none => ∀ y, y < nr → right y = true → InSubtree i y
  | some l => l < nr ∧ right l = true ∧ InSubtree (2 * l + 2) i ∧
      ∀ y, y < nr → right y = true → InSubtree i y ∨ eytzinger0ToInorder y nr ≤ eytzinger0ToInorder l nr

-- The same from the other side, hi being the last node it went left at.
def Ahead (i : Nat) : Option Nat → Prop
  | none => ∀ y, y < nr → right y = false → InSubtree i y
  | some l => l < nr ∧ right l = false ∧ InSubtree (2 * l + 1) i ∧
      ∀ y, y < nr → right y = false → InSubtree i y ∨ eytzinger0ToInorder l nr ≤ eytzinger0ToInorder y nr

variable {right nr}

theorem le_searchDescend (i : Nat) : nr ≤ searchDescend right nr i := by
  rw [searchDescend]
  by_cases inside : i < nr
  · rw [if_pos inside]
    exact le_searchDescend _
  · rw [if_neg inside]
    omega
termination_by nr - i
decreasing_by split <;> omega

theorem searchDescend_le (i : Nat) (le : i ≤ 2 * nr) : searchDescend right nr i ≤ 2 * nr := by
  rw [searchDescend]
  by_cases inside : i < nr
  · rw [if_pos inside]
    exact searchDescend_le _ (by split <;> omega)
  · rw [if_neg inside]
    exact le
termination_by nr - i
decreasing_by split <;> omega

theorem inSubtree_cases (pos : 0 < nr) {i y : Nat} (yIn : y < nr) (member : InSubtree i y) :
    y = i ∨ (InSubtree (2 * i + 1) y ∧ eytzinger0ToInorder y nr < eytzinger0ToInorder i nr) ∨
      (InSubtree (2 * i + 2) y ∧ eytzinger0ToInorder i nr < eytzinger0ToInorder y nr) := by
  by_cases here : y = i
  · exact .inl here
  · rcases member.child here with left | rightSub
    · exact .inr (.inl ⟨left,eytzinger0ToInorder_lt_of_left pos yIn left⟩)
    · exact .inr (.inr ⟨rightSub,eytzinger0ToInorder_lt_of_right pos yIn rightSub⟩)

theorem behind_root : Behind right nr 0 none := fun y _ _ => inSubtree_zero y

theorem ahead_root : Ahead right nr 0 none := fun y _ _ => inSubtree_zero y

section Steps

variable (first : RightFirst right nr) {i : Nat} (inside : i < nr)
include first inside

omit first in
theorem Behind.right_child {lo : Option Nat} (behind : Behind right nr i lo) (turn : right i = true) :
    Behind right nr (2 * i + 2) (some i) := by
  have pos : 0 < nr := by omega
  have underI : ∀ y, y < nr → InSubtree i y →
      InSubtree (2 * i + 2) y ∨ eytzinger0ToInorder y nr ≤ eytzinger0ToInorder i nr := by
    intro y yIn member
    rcases inSubtree_cases pos yIn member with rfl | ⟨_,before⟩ | ⟨rightSub,_⟩
    · exact .inr le_rfl
    · exact .inr before.le
    · exact .inl rightSub
  refine ⟨inside,turn,InSubtree.refl _,fun y yIn yRight => ?_⟩
  cases lo with
  | none => exact underI y yIn (behind y yIn yRight)
  | some l =>
    obtain ⟨_,_,below,earlier⟩ := behind
    rcases earlier y yIn yRight with member | before
    · exact underI y yIn member
    · exact .inr (before.trans (eytzinger0ToInorder_lt_of_right pos inside below).le)

theorem Behind.left_child {lo : Option Nat} (behind : Behind right nr i lo) (turn : right i = false) :
    Behind right nr (2 * i + 1) lo := by
  have pos : 0 < nr := by omega
  have intoLeft : ∀ y, y < nr → right y = true → InSubtree i y → InSubtree (2 * i + 1) y := by
    intro y yIn yRight member
    rcases inSubtree_cases pos yIn member with rfl | ⟨left,_⟩ | ⟨_,after⟩
    · rw [turn] at yRight
      contradiction
    · exact left
    · have := first i y inside yIn after.le yRight
      rw [turn] at this
      contradiction
  cases lo with
  | none => exact fun y yIn yRight => intoLeft y yIn yRight (behind y yIn yRight)
  | some l =>
    obtain ⟨lIn,lRight,below,earlier⟩ := behind
    refine ⟨lIn,lRight,below.trans (inSubtree_left i),fun y yIn yRight => ?_⟩
    rcases earlier y yIn yRight with member | before
    · exact .inl (intoLeft y yIn yRight member)
    · exact .inr before

omit first in
theorem Ahead.left_child {hi : Option Nat} (ahead : Ahead right nr i hi) (turn : right i = false) :
    Ahead right nr (2 * i + 1) (some i) := by
  have pos : 0 < nr := by omega
  have underI : ∀ y, y < nr → InSubtree i y →
      InSubtree (2 * i + 1) y ∨ eytzinger0ToInorder i nr ≤ eytzinger0ToInorder y nr := by
    intro y yIn member
    rcases inSubtree_cases pos yIn member with rfl | ⟨left,_⟩ | ⟨_,after⟩
    · exact .inr le_rfl
    · exact .inl left
    · exact .inr after.le
  refine ⟨inside,turn,InSubtree.refl _,fun y yIn yLeft => ?_⟩
  cases hi with
  | none => exact underI y yIn (ahead y yIn yLeft)
  | some l =>
    obtain ⟨_,_,below,later⟩ := ahead
    rcases later y yIn yLeft with member | after
    · exact underI y yIn member
    · exact .inr ((eytzinger0ToInorder_lt_of_left pos inside below).le.trans after)

theorem Ahead.right_child {hi : Option Nat} (ahead : Ahead right nr i hi) (turn : right i = true) :
    Ahead right nr (2 * i + 2) hi := by
  have pos : 0 < nr := by omega
  have intoRight : ∀ y, y < nr → right y = false → InSubtree i y → InSubtree (2 * i + 2) y := by
    intro y yIn yLeft member
    rcases inSubtree_cases pos yIn member with rfl | ⟨_,before⟩ | ⟨rightSub,_⟩
    · rw [turn] at yLeft
      contradiction
    · have := first y i yIn inside before.le turn
      rw [yLeft] at this
      contradiction
    · exact rightSub
  cases hi with
  | none => exact fun y yIn yLeft => intoRight y yIn yLeft (ahead y yIn yLeft)
  | some l =>
    obtain ⟨lIn,lLeft,below,later⟩ := ahead
    refine ⟨lIn,lLeft,below.trans (inSubtree_right i),fun y yIn yLeft => ?_⟩
    rcases later y yIn yLeft with member | after
    · exact .inl (intoRight y yIn yLeft member)
    · exact .inr after

end Steps

-- The run: the invariant holds where the descent ends, and C's n there still
-- encodes the last turn.
theorem Behind.descend (first : RightFirst right nr) (i : Nat) {lo : Option Nat} (behind : Behind right nr i lo)
    (code : lastRight (i + 1) = lo.elim 0 (· + 1)) :
    ∃ last, Behind right nr (searchDescend right nr i) last ∧
      lastRight (searchDescend right nr i + 1) = last.elim 0 (· + 1) := by
  rw [searchDescend]
  by_cases inside : i < nr
  · rw [if_pos inside]
    cases turn : right i with
    | true =>
      rw [if_pos rfl]
      refine Behind.descend first _ (behind.right_child inside turn) ?_
      rw [show 2 * i + 2 + 1 = 2 * (i + 1) + 1 by ring,lastRight_right]
      rfl
    | false =>
      rw [if_neg Bool.false_ne_true]
      refine Behind.descend first _ (behind.left_child first inside turn) ?_
      rw [show 2 * i + 1 + 1 = 2 * (i + 1) by ring,lastRight_left (by omega),code]
  · rw [if_neg inside]
    exact ⟨lo,behind,code⟩
termination_by nr - i
decreasing_by all_goals omega

theorem Ahead.descend (first : RightFirst right nr) (i : Nat) {hi : Option Nat} (ahead : Ahead right nr i hi)
    (code : lastLeft (i + 1) = hi.elim 0 (· + 1)) :
    ∃ last, Ahead right nr (searchDescend right nr i) last ∧
      lastLeft (searchDescend right nr i + 1) = last.elim 0 (· + 1) := by
  rw [searchDescend]
  by_cases inside : i < nr
  · rw [if_pos inside]
    cases turn : right i with
    | true =>
      rw [if_pos rfl]
      refine Ahead.descend first _ (ahead.right_child first inside turn) ?_
      rw [show 2 * i + 2 + 1 = 2 * (i + 1) + 1 by ring,lastLeft_right,code]
    | false =>
      rw [if_neg Bool.false_ne_true]
      refine Ahead.descend first _ (ahead.left_child inside turn) ?_
      rw [show 2 * i + 1 + 1 = 2 * (i + 1) by ring,lastLeft_left]
      rfl
  · rw [if_neg inside]
    exact ⟨hi,ahead,code⟩
termination_by nr - i
decreasing_by all_goals omega

theorem lastRight_searchDescend (first : RightFirst right nr) :
    ∃ last, LastRight right nr last ∧ lastRight (searchDescend right nr 0 + 1) = last.elim 0 (· + 1) := by
  obtain ⟨last,behind,code⟩ := Behind.descend first 0 behind_root (lastRight_right 0)
  have past := @le_searchDescend right nr 0
  refine ⟨last,?_,code⟩
  cases last with
  | none =>
    intro y yIn
    cases yRight : right y with
    | false => rfl
    | true =>
      have := (behind y yIn yRight).le
      omega
  | some l =>
    obtain ⟨lIn,lRight,_,earlier⟩ := behind
    refine ⟨lIn,lRight,fun y yIn yRight => ?_⟩
    rcases earlier y yIn yRight with member | before
    · have := member.le
      omega
    · exact before

theorem lastLeft_searchDescend (first : RightFirst right nr) :
    ∃ last, FirstLeft right nr last ∧ lastLeft (searchDescend right nr 0 + 1) = last.elim 0 (· + 1) := by
  obtain ⟨last,ahead,code⟩ := Ahead.descend first 0 ahead_root
    (by rw [lastLeft,Nat.shiftRight_eq_div_pow,Nat.div_eq_of_lt (Nat.one_lt_two_pow (by omega))]; rfl)
  have past := @le_searchDescend right nr 0
  refine ⟨last,?_,code⟩
  cases last with
  | none =>
    intro y yIn
    cases yRight : right y with
    | true => rfl
    | false =>
      have := (ahead y yIn yRight).le
      omega
  | some l =>
    obtain ⟨lIn,lLeft,_,later⟩ := ahead
    refine ⟨lIn,lLeft,fun y yIn yLeft => ?_⟩
    rcases later y yIn yLeft with member | after
    · have := member.le
      omega
    · exact after

end Descent

section Find

variable {α β γ : Type} [LinearOrder γ] {key : α → γ} {searchKey : β → γ} {base : Nat → α} {nr : Nat} {search : β}

theorem eytzinger0FindFrom_lt_of_mem (sorted : SortedLe key base nr) {e : Nat} (inside : e < nr)
    (hit : searchKey search = key (base e)) (i : Nat) (sub : InSubtree i e) :
    eytzinger0FindFrom (fun s x => compare (searchKey s) (key x)) base nr search i < nr := by
  have pos : 0 < nr := by omega
  have iInside : i < nr := by have := sub.le; omega
  rw [eytzinger0FindFrom,if_pos iInside]
  cases order : compare (searchKey search) (key (base i)) with
  | eq => exact iInside
  | lt =>
    -- e ranks below i, so it is not i and not in i's right subtree
    have smaller : key (base e) < key (base i) := by rw [← hit]; exact compare_lt_iff_lt.mp order
    rcases inSubtree_cases pos inside sub with rfl | ⟨left,_⟩ | ⟨_,after⟩
    · exact absurd smaller (lt_irrefl _)
    · exact eytzinger0FindFrom_lt_of_mem sorted inside hit (2 * i + 1) left
    · exact absurd (sorted.le_of_inorder iInside inside after.le) (not_le.mpr smaller)
  | gt =>
    have larger : key (base i) < key (base e) := by rw [← hit]; exact compare_gt_iff_gt.mp order
    rcases inSubtree_cases pos inside sub with rfl | ⟨_,before⟩ | ⟨rightSub,_⟩
    · exact absurd larger (lt_irrefl _)
    · exact absurd (sorted.le_of_inorder inside iInside before.le) (not_le.mpr larger)
    · exact eytzinger0FindFrom_lt_of_mem sorted inside hit (2 * i + 2) rightSub
termination_by nr - i
decreasing_by all_goals have := sub.le; omega

theorem eytzinger0Find_lt_of_mem (sorted : SortedLe key base nr) {e : Nat} (inside : e < nr)
    (hit : searchKey search = key (base e)) :
    eytzinger0Find (fun s x => compare (searchKey s) (key x)) base nr search < nr :=
  eytzinger0FindFrom_lt_of_mem sorted inside hit 0 (inSubtree_zero e)

end Find

end Eytzinger
