import Mathlib
import Bcachefs.Lib.EytzingerSearch
import Bcachefs.Lib.EytzingerSort
import Bcachefs.Util.Eytzinger

namespace Bcachefs

open Eytzinger HeapSort

section Search

variable {α : Type}

-- while (n <= nr) n = eytzinger1_child(n, goRight n), n unsigned. none is a loop
-- that does not end within the fuel.
def eytzinger0SearchLoop (goRight : Nat → Bool) (nr : Nat) : Nat → Nat → Option Nat
  | 0,_ => none
  | fuel + 1,n => if n ≤ nr then eytzinger0SearchLoop goRight nr fuel (eytzinger1Child n (goRight n).toNat) else some n

-- n takes at most 2 ^ 32 values: a run longer than that repeats one and never ends.
def searchFuel : Nat := 2 ^ 32 + 1

-- The finds from n = 1, returning the node decode picks as an int, n - 1.
def eytzinger0Search (goRight : Nat → Bool) (decode : Nat → Nat) (nr : Nat) : Option Int :=
  (eytzinger0SearchLoop goRight nr searchFuel 1).map fun n => (decode n : Int) - 1

-- eytzinger0_find_le: right where cmp(base1 + n * size, search) <= 0, then
-- n >>= __ffs(n) + 1.
def eytzinger0FindLe (cmp : α → α → Ordering) (base : Nat → α) (nr : Nat) (search : α) : Option Int :=
  eytzinger0Search (fun n => cmp (base (n - 1)) search != .gt) (fun n => n >>> (ffs n + 1)) nr

-- eytzinger0_find_gt: the same descent, then n >>= __ffs(n + 1) + 1.
def eytzinger0FindGt (cmp : α → α → Ordering) (base : Nat → α) (nr : Nat) (search : α) : Option Int :=
  eytzinger0Search (fun n => cmp (base (n - 1)) search != .gt) (fun n => n >>> (ffs ((n + 1) % 2 ^ 32) + 1)) nr

-- eytzinger0_find_ge: right where cmp < 0, then as find_gt.
def eytzinger0FindGe (cmp : α → α → Ordering) (base : Nat → α) (nr : Nat) (search : α) : Option Int :=
  eytzinger0Search (fun n => cmp (base (n - 1)) search == .lt) (fun n => n >>> (ffs ((n + 1) % 2 ^ 32) + 1)) nr

-- eytzinger0_find: while (_i <= _nr && (_res = cmp(search, base1 + _i))) _i =
-- eytzinger1_child(_i, _res > 0), then _i - 1. none is a loop that does not end within
-- the fuel.
def eytzinger0FindLoop {β : Type} (cmp : β → α → Ordering) (base : Nat → α) (nr : Nat) (search : β) :
    Nat → Nat → Option Nat
  | 0,_ => none
  | fuel + 1,i =>
    if i ≤ nr then
      match cmp search (base (i - 1)) with
      | .lt => eytzinger0FindLoop cmp base nr search fuel (eytzinger1Child i 0)
      | .gt => eytzinger0FindLoop cmp base nr search fuel (eytzinger1Child i 1)
      | .eq => some i
    else some i

def eytzinger0FindU32 {β : Type} (cmp : β → α → Ordering) (base : Nat → α) (nr : Nat) (search : β) : Option Nat :=
  (eytzinger0FindLoop cmp base nr search searchFuel 1).map (· - 1)

-- What the finds promise: the index of an element of the first nr that passes ok and
-- beats every other one that does, or -1 when none passes.
def IsBestIndex (ok : Nat → Prop) (beats : Nat → Nat → Prop) (nr : Nat) (r : Int) : Prop :=
  (r = -1 ∧ ∀ y, y < nr → ¬ ok y) ∨ ∃ i : Nat, r = i ∧ i < nr ∧ ok i ∧ ∀ y, y < nr → ok y → beats i y

variable {goRight : Nat → Bool} {nr : Nat}

-- Below 2 ^ 31 no child wraps, and the loop is the descent, one based.
theorem eytzinger0SearchLoop_eq (small : nr < 2 ^ 31) (fuel i : Nat) (enough : nr - i < fuel) :
    eytzinger0SearchLoop goRight nr fuel (i + 1) = some (searchDescend (fun j => goRight (j + 1)) nr i + 1) := by
  induction fuel generalizing i with
  | zero => omega
  | succ fuel ih =>
    rw [eytzinger0SearchLoop,searchDescend]
    by_cases inside : i < nr
    · rw [if_pos (by omega),if_pos inside]
      cases turn : goRight (i + 1) with
      | true =>
        have child : eytzinger1Child (i + 1) true.toNat = 2 * i + 2 + 1 := by
          rw [eytzinger1Child,Bool.toNat_true,Nat.mod_eq_of_lt (by omega)]
          ring
        rw [if_pos rfl,child,ih (2 * i + 2) (by omega)]
      | false =>
        have child : eytzinger1Child (i + 1) false.toNat = 2 * i + 1 + 1 := by
          rw [eytzinger1Child,Bool.toNat_false,Nat.mod_eq_of_lt (by omega)]
          ring
        rw [if_neg Bool.false_ne_true,child,ih (2 * i + 1) (by omega)]
    · rw [if_neg (by omega),if_neg inside]

theorem eytzinger0Search_eq (small : nr < 2 ^ 31) (decode : Nat → Nat) :
    eytzinger0Search goRight decode nr = some ((decode (searchDescend (fun j => goRight (j + 1)) nr 0 + 1) : Int) - 1) := by
  rw [eytzinger0Search,eytzinger0SearchLoop_eq small searchFuel 0 (by unfold searchFuel; omega)]
  rfl

theorem eytzinger0FindLe_eq (small : nr < 2 ^ 31) (cmp : α → α → Ordering) (base : Nat → α) (search : α) :
    eytzinger0FindLe cmp base nr search =
      some ((lastRight (searchDescend (fun j => cmp (base j) search != .gt) nr 0 + 1) : Int) - 1) := by
  rw [eytzinger0FindLe,eytzinger0Search_eq small]
  simp only [Nat.add_sub_cancel]
  rfl

-- For find_gt and find_ge one more: at nr = 2 ^ 31 - 1 the final n + 1 can wrap to 0.
theorem eytzinger0FindGt_eq (small : nr + 1 < 2 ^ 31) (cmp : α → α → Ordering) (base : Nat → α) (search : α) :
    eytzinger0FindGt cmp base nr search =
      some ((lastLeft (searchDescend (fun j => cmp (base j) search != .gt) nr 0 + 1) : Int) - 1) := by
  have bound := @searchDescend_le (fun j => cmp (base j) search != .gt) nr 0 (Nat.zero_le _)
  rw [eytzinger0FindGt,eytzinger0Search_eq (by omega)]
  simp only [Nat.add_sub_cancel]
  rw [Nat.mod_eq_of_lt (by omega)]
  rfl

theorem eytzinger0FindGe_eq (small : nr + 1 < 2 ^ 31) (cmp : α → α → Ordering) (base : Nat → α) (search : α) :
    eytzinger0FindGe cmp base nr search =
      some ((lastLeft (searchDescend (fun j => cmp (base j) search == .lt) nr 0 + 1) : Int) - 1) := by
  have bound := @searchDescend_le (fun j => cmp (base j) search == .lt) nr 0 (Nat.zero_le _)
  rw [eytzinger0FindGe,eytzinger0Search_eq (by omega)]
  simp only [Nat.add_sub_cancel]
  rw [Nat.mod_eq_of_lt (by omega)]
  rfl

-- Below 2 ^ 31 no child of eytzinger0_find wraps either, and its walk is the one
-- eytzinger0Find takes over unbounded indices.
theorem eytzinger0FindLoop_eq {β : Type} (small : nr < 2 ^ 31) (cmp : β → α → Ordering) (base : Nat → α) (search : β)
    (fuel i : Nat) (enough : nr - i < fuel) :
    eytzinger0FindLoop cmp base nr search fuel (i + 1) = some (eytzinger0FindFrom cmp base nr search i + 1) := by
  induction fuel generalizing i with
  | zero => omega
  | succ fuel ih =>
    rw [eytzinger0FindLoop,eytzinger0FindFrom]
    by_cases inside : i < nr
    · rw [if_pos (by omega),if_pos inside,Nat.add_sub_cancel]
      cases cmp search (base i) with
      | lt =>
        have child : eytzinger1Child (i + 1) 0 = 2 * i + 1 + 1 := by
          rw [eytzinger1Child_of_lt (by omega)]
          ring
        rw [child,ih (2 * i + 1) (by omega)]
      | gt =>
        have child : eytzinger1Child (i + 1) 1 = 2 * i + 2 + 1 := by
          rw [eytzinger1Child_of_lt (by omega)]
          ring
        rw [child,ih (2 * i + 2) (by omega)]
      | eq => rfl
    · rw [if_neg (by omega),if_neg inside]

theorem eytzinger0FindU32_eq {β : Type} (small : nr < 2 ^ 31) (cmp : β → α → Ordering) (base : Nat → α) (search : β) :
    eytzinger0FindU32 cmp base nr search = some (eytzinger0Find cmp base nr search) := by
  rw [eytzinger0FindU32,eytzinger0FindLoop_eq small cmp base search searchFuel 0 (by unfold searchFuel; omega)]
  rfl

-- The step of the loop at n.
def searchStep (goRight : Nat → Bool) (n : Nat) : Nat := eytzinger1Child n (goRight n).toNat

theorem eytzinger0SearchLoop_of_stays {n : Nat} (stays : ∀ k, (searchStep goRight)^[k] n ≤ nr) (fuel : Nat) :
    eytzinger0SearchLoop goRight nr fuel n = none := by
  induction fuel generalizing n with
  | zero => rfl
  | succ fuel ih =>
    rw [eytzinger0SearchLoop,if_pos (show n ≤ nr from stays 0)]
    refine ih fun k => ?_
    have next := stays (k + 1)
    rwa [Function.iterate_succ_apply] at next

theorem isBestIndex_of_lastRight {right : Nat → Bool} {ok : Nat → Prop} {beats : Nat → Nat → Prop}
    (okIff : ∀ y, y < nr → (right y = true ↔ ok y))
    (order : ∀ i y, i < nr → y < nr → eytzinger0ToInorder y nr ≤ eytzinger0ToInorder i nr → beats i y)
    {last : Option Nat} (lastIs : LastRight right nr last) :
    IsBestIndex ok beats nr ((last.elim 0 (· + 1) : Nat) - 1) := by
  cases last with
  | none =>
    refine .inl ⟨rfl,fun y yIn passes => ?_⟩
    have := (okIff y yIn).mpr passes
    rw [lastIs y yIn] at this
    contradiction
  | some l =>
    obtain ⟨lIn,lRight,latest⟩ := lastIs
    refine .inr ⟨l,by simp,lIn,(okIff l lIn).mp lRight,fun y yIn passes => ?_⟩
    exact order l y lIn yIn (latest y yIn ((okIff y yIn).mpr passes))

theorem isBestIndex_of_firstLeft {right : Nat → Bool} {ok : Nat → Prop} {beats : Nat → Nat → Prop}
    (okIff : ∀ y, y < nr → (right y = false ↔ ok y))
    (order : ∀ i y, i < nr → y < nr → eytzinger0ToInorder i nr ≤ eytzinger0ToInorder y nr → beats i y)
    {first : Option Nat} (firstIs : FirstLeft right nr first) :
    IsBestIndex ok beats nr ((first.elim 0 (· + 1) : Nat) - 1) := by
  cases first with
  | none =>
    refine .inl ⟨rfl,fun y yIn passes => ?_⟩
    have := (okIff y yIn).mpr passes
    rw [firstIs y yIn] at this
    contradiction
  | some l =>
    obtain ⟨lIn,lLeft,earliest⟩ := firstIs
    refine .inr ⟨l,by simp,lIn,(okIff l lIn).mp lLeft,fun y yIn passes => ?_⟩
    exact order l y lIn yIn (earliest y yIn ((okIff y yIn).mpr passes))

end Search

section Spec

variable {α γ : Type} [LinearOrder γ] {key : α → γ} {base : Nat → α} {nr : Nat}

theorem compare_ne_gt_iff (a b : γ) : (compare a b != .gt) = true ↔ a ≤ b := by
  cases order : compare a b with
  | lt => simp [(compare_lt_iff_lt.mp order).le]
  | eq => simp [(compare_eq_iff_eq.mp order).le]
  | gt => simp [compare_gt_iff_gt.mp order]

theorem compare_eq_lt_iff (a b : γ) : (compare a b == .lt) = true ↔ a < b := by
  cases order : compare a b with
  | lt => simp [compare_lt_iff_lt.mp order]
  | eq => simp [compare_eq_iff_eq.mp order]
  | gt => simp [(compare_gt_iff_gt.mp order).le]

theorem rightFirst_le (sorted : SortedLe key base nr) (search : α) :
    RightFirst (fun j => compare (key (base j)) (key search) != .gt) nr := by
  intro x y xIn yIn before yRight
  rw [compare_ne_gt_iff] at yRight ⊢
  exact (sorted.le_of_inorder xIn yIn before).trans yRight

theorem rightFirst_lt (sorted : SortedLe key base nr) (search : α) :
    RightFirst (fun j => compare (key (base j)) (key search) == .lt) nr := by
  intro x y xIn yIn before yRight
  rw [compare_eq_lt_iff] at yRight ⊢
  exact lt_of_le_of_lt (sorted.le_of_inorder xIn yIn before) yRight

variable (sorted : SortedLe key base nr) (search : α)
include sorted

theorem eytzinger0FindLe_spec (small : nr < 2 ^ 31) :
    ∃ r, eytzinger0FindLe (fun x y => compare (key x) (key y)) base nr search = some r ∧
      IsBestIndex (fun y => key (base y) ≤ key search) (fun i y => key (base y) ≤ key (base i)) nr r := by
  obtain ⟨last,lastIs,code⟩ := lastRight_searchDescend (rightFirst_le sorted search)
  refine ⟨_,eytzinger0FindLe_eq small _ base search,?_⟩
  rw [code]
  exact isBestIndex_of_lastRight (fun y _ => compare_ne_gt_iff _ _)
    (fun i y iIn yIn before => sorted.le_of_inorder yIn iIn before) lastIs

theorem eytzinger0FindGt_spec (small : nr + 1 < 2 ^ 31) :
    ∃ r, eytzinger0FindGt (fun x y => compare (key x) (key y)) base nr search = some r ∧
      IsBestIndex (fun y => key search < key (base y)) (fun i y => key (base i) ≤ key (base y)) nr r := by
  obtain ⟨first,firstIs,code⟩ := lastLeft_searchDescend (rightFirst_le sorted search)
  refine ⟨_,eytzinger0FindGt_eq small _ base search,?_⟩
  rw [code]
  exact isBestIndex_of_firstLeft (fun y _ => by rw [← Bool.not_eq_true,compare_ne_gt_iff,not_le])
    (fun i y iIn yIn before => sorted.le_of_inorder iIn yIn before) firstIs

theorem eytzinger0FindGe_spec (small : nr + 1 < 2 ^ 31) :
    ∃ r, eytzinger0FindGe (fun x y => compare (key x) (key y)) base nr search = some r ∧
      IsBestIndex (fun y => key search ≤ key (base y)) (fun i y => key (base i) ≤ key (base y)) nr r := by
  obtain ⟨first,firstIs,code⟩ := lastLeft_searchDescend (rightFirst_lt sorted search)
  refine ⟨_,eytzinger0FindGe_eq small _ base search,?_⟩
  rw [code]
  exact isBestIndex_of_firstLeft (fun y _ => by rw [← Bool.not_eq_true,compare_eq_lt_iff,not_lt])
    (fun i y iIn yIn before => sorted.le_of_inorder iIn yIn before) firstIs

theorem eytzinger0Find_spec :
    ((∃ e, e < nr ∧ key (base e) = key search) →
      eytzinger0Find (fun s x => compare (key s) (key x)) base nr search < nr ∧
        key (base (eytzinger0Find (fun s x => compare (key s) (key x)) base nr search)) = key search) ∧
    ((∀ e, e < nr → key (base e) ≠ key search) → nr ≤ eytzinger0Find (fun s x => compare (key s) (key x)) base nr search) := by
  constructor
  · rintro ⟨e,eIn,hit⟩
    have found := eytzinger0Find_lt_of_mem sorted eIn hit.symm
    have same : compare (key search) (key (base (eytzinger0Find (fun s x => compare (key s) (key x)) base nr search))) =
        .eq := eytzinger0Find_found found
    exact ⟨found,(compare_eq_iff_eq.mp same).symm⟩
  · intro absent
    exact eytzinger0Find_of_absent fun e eIn same => absent e eIn (compare_eq_iff_eq.mp same).symm

end Spec

section Order

variable {α γ : Type} [LinearOrder γ] {key : α → γ} {base : Nat → α} {n : Nat}

theorem pairwise_range_iff {R : Nat → Nat → Prop} : (List.range n).Pairwise R ↔ ∀ i j, i < j → j < n → R i j := by
  rw [List.pairwise_iff_getElem]
  simp only [List.length_range,List.getElem_range]
  constructor
  · intro pairwise i j before inside
    exact pairwise i j (by omega) inside before
  · intro ordered i j _ inside before
    exact ordered i j before inside

theorem pairwise_forEach_iff (small : n < 2 ^ 31) :
    ((eytzinger0ForEach n).map fun i => key (base i)).Pairwise (· ≤ ·) ↔ SortedLe key base n := by
  rcases Nat.eq_zero_or_pos n with rfl | pos
  · have empty : eytzinger0ForEach 0 = [] := rfl
    rw [empty]
    exact ⟨fun _ i j _ inside => absurd inside (Nat.not_lt_zero j),fun _ => List.Pairwise.nil⟩
  · rw [eytzinger0ForEach_eq pos small,List.map_map,List.pairwise_map,pairwise_range_iff]
    constructor
    · intro ordered i j before inside
      rcases Nat.lt_or_eq_of_le before with lt | rfl
      · exact ordered i j lt inside
      · exact le_rfl
    · intro sorted i j before inside
      exact sorted i j before.le inside

end Order

-- Below 2 ^ 31 elements the unsigned j and k of eytzinger1_sort_r never wrap: the
-- sift-down paths stay within n, so k = j * 2 and k + 1 stay below 2 ^ 32.
theorem siftDownPath_children_fit {α : Type} (cmp : α → α → Ordering) (base : Nat → α) {n lim j : Nat}
    (small : n < 2 ^ 31) (inside : j ≤ lim) (limLe : lim ≤ n) :
    siftDownPath cmp base n lim j * 2 + 1 < 2 ^ 32 := by
  have path := @siftDownPath_le _ cmp n base _ _ inside
  omega

theorem eytzinger0_sort_then_find {α γ : Type} [LinearOrder γ] (key : α → γ) (n : Nat) (small : n < 2 ^ 31) :
    (∀ base : Nat → α,
      (∃ σ : Equiv.Perm ℕ, (∀ y, n ≤ y → σ y = y) ∧
        eytzinger0Sort (fun x y => compare (key x) (key y)) base n = base ∘ σ) ∧
      ((eytzinger0ForEach n).map fun i => key (eytzinger0Sort (fun x y => compare (key x) (key y)) base n i)).Pairwise
        (· ≤ ·)) ∧
    ∀ (base : Nat → α) (search : α), ((eytzinger0ForEach n).map fun i => key (base i)).Pairwise (· ≤ ·) →
      (∃ r, eytzinger0FindLe (fun x y => compare (key x) (key y)) base n search = some r ∧
        IsBestIndex (fun y => key (base y) ≤ key search) (fun i y => key (base y) ≤ key (base i)) n r) ∧
      (n + 1 < 2 ^ 31 → ∃ r, eytzinger0FindGt (fun x y => compare (key x) (key y)) base n search = some r ∧
        IsBestIndex (fun y => key search < key (base y)) (fun i y => key (base i) ≤ key (base y)) n r) ∧
      (n + 1 < 2 ^ 31 → ∃ r, eytzinger0FindGe (fun x y => compare (key x) (key y)) base n search = some r ∧
        IsBestIndex (fun y => key search ≤ key (base y)) (fun i y => key (base i) ≤ key (base y)) n r) ∧
      ((∃ e, e < n ∧ key (base e) = key search) →
        eytzinger0Find (fun s x => compare (key s) (key x)) base n search < n ∧
          key (base (eytzinger0Find (fun s x => compare (key s) (key x)) base n search)) = key search) ∧
      ((∀ e, e < n → key (base e) ≠ key search) → n ≤ eytzinger0Find (fun s x => compare (key s) (key x)) base n search) := by
  refine ⟨fun base => ?_,fun base search ordered => ?_⟩
  · obtain ⟨sorted,perm⟩ := eytzinger0Sort_sortedLe key (n := n) base
    exact ⟨perm,(pairwise_forEach_iff small).mpr sorted⟩
  · have sorted := (pairwise_forEach_iff small).mp ordered
    exact ⟨eytzinger0FindLe_spec sorted search small,fun small' => eytzinger0FindGt_spec sorted search small',
      fun small' => eytzinger0FindGe_spec sorted search small',eytzinger0Find_spec sorted search⟩

theorem eytzinger0_find_le_five :
    ((eytzinger0ForEach 5).map fun i => [30,10,40,0,20].getD i 0).Pairwise (· ≤ ·) ∧
      ∃ r, eytzinger0FindLe (fun x y => compare x y) (fun i => [30,10,40,0,20].getD i 0) 5 25 = some r ∧
        IsBestIndex (fun y => [30,10,40,0,20].getD y 0 ≤ 25)
          (fun i y => [30,10,40,0,20].getD y 0 ≤ [30,10,40,0,20].getD i 0) 5 r :=
  have ordered : ((eytzinger0ForEach 5).map fun i => [30,10,40,0,20].getD i 0).Pairwise (· ≤ ·) := by decide +kernel
  ⟨ordered,((eytzinger0_sort_then_find (fun x : Nat => x) 5 (by decide)).2 _ 25 ordered).1⟩

example : eytzinger0FindLe (fun x y => compare x y) (fun i => [30,10,40,0,20].getD i 0) 5 25 = some 4 := by decide +kernel

-- Eytzinger order on 2 ^ 31 elements: the least, 0, at the leftmost leaf, node 2 ^ 31,
-- and 10 everywhere else.
def leftmostLow (i : Nat) : Nat := if i = 2 ^ 31 - 1 then 0 else 10

theorem sortedLe_leftmostLow : SortedLe (fun x : Nat => x) leftmostLow (2 ^ 31) := by
  have least : eytzinger0ToInorder (2 ^ 31 - 1) (2 ^ 31) = 0 := by decide
  intro i j before inside
  by_cases atLeast : inorderToEytzinger0 i (2 ^ 31) = 2 ^ 31 - 1
  · rw [leftmostLow,if_pos atLeast]
    exact Nat.zero_le _
  · have other : inorderToEytzinger0 j (2 ^ 31) ≠ 2 ^ 31 - 1 := by
      intro same
      have back := eytzinger0ToInorder_inorderToEytzinger0 inside
      rw [same,least] at back
      exact atLeast (by rw [show i = j by omega,same])
    rw [leftmostLow,leftmostLow,if_neg atLeast,if_neg other]

-- Searching it for 5: left at every node 2 ^ j but node 2 ^ 31, right there, and that
-- child wraps to the root.
theorem searchStep_leftmostLow (k : Nat) :
    (searchStep fun n => compare (leftmostLow (n - 1)) 5 != .gt)^[k] 1 = 2 ^ (k % 32) := by
  induction k with
  | zero => rfl
  | succ k ih =>
    rw [Function.iterate_succ_apply',ih]
    rcases (by omega : k % 32 < 31 ∨ k % 32 = 31) with low | top
    · have below : 2 ^ (k % 32) < 2 ^ 31 := Nat.pow_lt_pow_right (by decide) low
      have high : leftmostLow (2 ^ (k % 32) - 1) = 10 := if_neg (by omega)
      simp only [searchStep,eytzinger1Child,high]
      rw [show (k + 1) % 32 = k % 32 + 1 by omega,pow_succ 2 (k % 32),
        show (compare 10 5 != Ordering.gt).toNat = 0 from rfl,Nat.add_zero,Nat.mod_eq_of_lt (by omega)]
      ring
    · rw [top,show (k + 1) % 32 = 0 by omega]
      decide

theorem eytzinger0FindLe_leftmostLow : eytzinger0FindLe (fun x y => compare x y) leftmostLow (2 ^ 31) 5 = none := by
  have stays : ∀ k, (searchStep fun n => compare (leftmostLow (n - 1)) 5 != .gt)^[k] 1 ≤ 2 ^ 31 := by
    intro k
    rw [searchStep_leftmostLow]
    exact Nat.pow_le_pow_right (by decide) (by omega)
  rw [eytzinger0FindLe,eytzinger0Search,eytzinger0SearchLoop_of_stays stays]
  rfl

-- At 2 ^ 31 elements find_le on a sorted array never returns; at 2 ^ 31 - 1, find_gt on
-- a constant one ends its loop at n = 2 ^ 32 - 1, so that n + 1 is 0 and __ffs(0) is
-- __builtin_ctzl(0).
theorem eytzinger0_find_past_two_pow_31 :
    SortedLe (fun x : Nat => x) leftmostLow (2 ^ 31) ∧
      eytzinger0FindLe (fun x y => compare x y) leftmostLow (2 ^ 31) 5 = none ∧
      eytzinger0SearchLoop (fun n => compare ((fun _ => 0 : Nat → Nat) (n - 1)) 0 != .gt) (2 ^ 31 - 1) searchFuel 1 =
        some (2 ^ 32 - 1) :=
  ⟨sortedLe_leftmostLow,eytzinger0FindLe_leftmostLow,by decide⟩

end Bcachefs
