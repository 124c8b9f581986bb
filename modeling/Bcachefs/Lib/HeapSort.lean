import Mathlib

namespace HeapSort

variable {α : Type}

-- The parent of node b of an array read as a binary tree.
def parent (b : Nat) : Nat := (b - 1) / 2

-- swap(base[i], base[j]) on an array read as a function of the index.
def swap (base : Nat → α) (i j : Nat) : Nat → α := base ∘ Equiv.swap i j

section Loops

variable (ge : α → α → Bool)

-- The sift-down path from b: the child `ge` prefers at each level, down to a
-- leaf; a last leaf with no sibling is taken alone.
def descend (base : Nat → α) (n b : Nat) : Nat :=
  if 2 * b + 2 < n then
    descend base n (if ge (base (2 * b + 1)) (base (2 * b + 2)) then 2 * b + 1 else 2 * b + 2)
  else if 2 * b + 2 = n then 2 * b + 1 else b
termination_by n - b
decreasing_by all_goals split <;> omega

-- Back up the path while the element at a belongs below b. Every b here lies
-- below a, where `b != a` is `a < b`.
def backtrack (base : Nat → α) (a b : Nat) : Nat :=
  if a < b ∧ ge (base a) (base b) = true then backtrack base a (parent b) else b
termination_by b
decreasing_by unfold parent; omega

-- Move the path from c up to a one place up, and the element at a into c.
def shiftUp (base : Nat → α) (a c b : Nat) : Nat → α :=
  if a < b then shiftUp (swap base (parent b) c) a c (parent b) else base
termination_by b
decreasing_by unfold parent; omega

-- The bottom-up sift-down of the element at a into the heap of the first n: down
-- the path pick prefers, then back up while ge keeps the element above.
def sift (pick ge : α → α → Bool) (base : Nat → α) (n a : Nat) : Nat → α :=
  let c := backtrack ge base a (descend pick base n a)
  shiftUp base a c c

-- The sort's loop: sift down from each a < num / 2 to build the heap, then move
-- the root to the end of the heap and sift the new root down. n stays at least
-- one, where `--n` is nonzero just when 1 < n.
def sortLoop (pick ge : α → α → Bool) (base : Nat → α) (a n : Nat) : Nat → α :=
  if 0 < a then sortLoop pick ge (sift pick ge base n (a - 1)) (a - 1) n
  else if 1 < n then sortLoop pick ge (sift pick ge (swap base 0 (n - 1)) (n - 1) 0) 0 (n - 1)
  else base
termination_by a + n

def sortBy (pick ge : α → α → Bool) (base : Nat → α) (num : Nat) : Nat → α :=
  if num / 2 = 0 then base else sortLoop pick ge base (num / 2) num

-- lib/sort.c's sort takes one comparison, cmp >= 0, down the path and back up it.
def sort (base : Nat → α) (num : Nat) : Nat → α := sortBy ge ge base num

end Loops

section Subtree

-- Node y lies in the subtree of a: a + 1 is a binary prefix of y + 1.
def InSubtree (a y : Nat) : Prop := ∃ k, (y + 1) / 2^k = a + 1

theorem parent_succ {y : Nat} (pos : 0 < y) : parent y + 1 = (y + 1) / 2 := by
  unfold parent
  omega

theorem parent_lt {y : Nat} (pos : 0 < y) : parent y < y := by
  unfold parent
  omega

theorem parent_left (a : Nat) : parent (2 * a + 1) = a := by
  unfold parent
  omega

theorem parent_right (a : Nat) : parent (2 * a + 2) = a := by
  unfold parent
  omega

theorem InSubtree.refl (a : Nat) : InSubtree a a := ⟨0,by simp⟩

theorem InSubtree.le {a y : Nat} (member : InSubtree a y) : a ≤ y := by
  obtain ⟨k,prefix_⟩ := member
  have := Nat.div_le_self (y + 1) (2^k)
  omega

theorem InSubtree.trans {a b y : Nat} (ab : InSubtree a b) (by_ : InSubtree b y) : InSubtree a y := by
  obtain ⟨j,bPrefix⟩ := ab
  obtain ⟨k,yPrefix⟩ := by_
  exact ⟨k + j,by rw [Nat.pow_add,← Nat.div_div_eq_div_mul,yPrefix,bPrefix]⟩

theorem inSubtree_iff {a y : Nat} : InSubtree a y ↔ y = a ∨ (0 < y ∧ InSubtree a (parent y)) := by
  constructor
  · rintro ⟨k,prefix_⟩
    cases k with
    | zero =>
      left
      simpa using prefix_
    | succ k =>
      right
      have pos : 0 < y := by
        rcases Nat.eq_zero_or_pos y with zero | pos
        · rw [zero,Nat.div_eq_of_lt (Nat.one_lt_two_pow (Nat.succ_ne_zero k))] at prefix_
          omega
        · exact pos
      refine ⟨pos,k,?_⟩
      rw [parent_succ pos,Nat.div_div_eq_div_mul,← Nat.pow_succ']
      exact prefix_
  · rintro (rfl | ⟨pos,k,prefix_⟩)
    · exact InSubtree.refl y
    · refine ⟨k + 1,?_⟩
      rw [Nat.pow_succ',← Nat.div_div_eq_div_mul,← parent_succ pos]
      exact prefix_

theorem InSubtree.up {a y : Nat} (member : InSubtree a y) (other : y ≠ a) : 0 < y ∧ InSubtree a (parent y) :=
  (inSubtree_iff.mp member).resolve_left other

theorem InSubtree.down {a y : Nat} (pos : 0 < y) (member : InSubtree a (parent y)) : InSubtree a y :=
  inSubtree_iff.mpr (.inr ⟨pos,member⟩)

theorem inSubtree_left (a : Nat) : InSubtree a (2 * a + 1) :=
  InSubtree.down (by omega) (by rw [parent_left]; exact InSubtree.refl a)

theorem inSubtree_right (a : Nat) : InSubtree a (2 * a + 2) :=
  InSubtree.down (by omega) (by rw [parent_right]; exact InSubtree.refl a)

theorem InSubtree.nested {c d y : Nat} (inC : InSubtree c y) (inD : InSubtree d y) : InSubtree c d ∨ InSubtree d c := by
  obtain ⟨k,cPrefix⟩ := inC
  obtain ⟨j,dPrefix⟩ := inD
  rcases Nat.le_total k j with kj | jk
  · right
    refine ⟨j - k,?_⟩
    rw [← cPrefix,Nat.div_div_eq_div_mul,← Nat.pow_add,Nat.add_sub_cancel' kj,dPrefix]
  · left
    refine ⟨k - j,?_⟩
    rw [← dPrefix,Nat.div_div_eq_div_mul,← Nat.pow_add,Nat.add_sub_cancel' jk,cPrefix]

theorem inSubtree_siblings {a y : Nat} (left : InSubtree (2 * a + 1) y) (right : InSubtree (2 * a + 2) y) : False := by
  rcases left.nested right with ⟨k,prefix_⟩ | below
  · cases k with
    | zero => simp at prefix_
    | succ k =>
      have half : (2 * a + 2 + 1) / 2^(k + 1) ≤ (2 * a + 3) / 2 :=
        Nat.div_le_div_left (Nat.le_self_pow (Nat.succ_ne_zero k) 2 |>.trans' (by simp)) (by decide)
      omega
  · have := below.le
    omega

theorem InSubtree.child {a y : Nat} (member : InSubtree a y) (other : y ≠ a) :
    InSubtree (2 * a + 1) y ∨ InSubtree (2 * a + 2) y := by
  obtain ⟨k,prefix_⟩ := member
  cases k with
  | zero => simp at prefix_; omega
  | succ k =>
    have top : (y + 1) / 2^k / 2 = a + 1 := by
      rw [Nat.div_div_eq_div_mul,← Nat.pow_succ]
      exact prefix_
    rcases (by omega : (y + 1) / 2^k = 2 * a + 1 + 1 ∨ (y + 1) / 2^k = 2 * a + 2 + 1) with left | right
    · exact .inl ⟨k,left⟩
    · exact .inr ⟨k,right⟩

end Subtree

section Swap

@[simp] theorem swap_left (base : Nat → α) (i j : Nat) : swap base i j i = base j := by
  simp [swap]

@[simp] theorem swap_right (base : Nat → α) (i j : Nat) : swap base i j j = base i := by
  simp [swap]

theorem swap_other (base : Nat → α) {i j y : Nat} (notI : y ≠ i) (notJ : y ≠ j) : swap base i j y = base y := by
  simp [swap,Equiv.swap_apply_of_ne_of_ne notI notJ]

theorem swap_comm_of_ne (base : Nat → α) {i j k l : Nat} (ik : i ≠ k) (il : i ≠ l) (jk : j ≠ k) (jl : j ≠ l) :
    swap (swap base i j) k l = swap (swap base k l) i j := by
  funext y
  simp only [swap,Function.comp_apply,Equiv.swap_apply_def]
  split_ifs <;> first | rfl | omega

theorem swap_swap_three (base : Nat → α) {a c t : Nat} (ac : a ≠ c) (at_ : a ≠ t) (ct : c ≠ t) :
    swap (swap base c t) a t = swap (swap base a c) c t := by
  funext y
  simp only [swap,Function.comp_apply,Equiv.swap_apply_def]
  split_ifs <;> first | rfl | omega

end Swap

section Descend

variable {ge : α → α → Bool} {base : Nat → α} {n : Nat}

-- The child the descent takes from a node that has one.
def largerChild (ge : α → α → Bool) (base : Nat → α) (n a : Nat) : Nat :=
  if 2 * a + 2 < n then (if ge (base (2 * a + 1)) (base (2 * a + 2)) then 2 * a + 1 else 2 * a + 2) else 2 * a + 1

theorem largerChild_cases (a : Nat) :
    (largerChild ge base n a = 2 * a + 1 ∧ (2 * a + 2 < n → ge (base (2 * a + 1)) (base (2 * a + 2)) = true)) ∨
      (largerChild ge base n a = 2 * a + 2 ∧ 2 * a + 2 < n ∧ ge (base (2 * a + 1)) (base (2 * a + 2)) = false) := by
  unfold largerChild
  split_ifs with below prefers
  · exact .inl ⟨rfl,fun _ => prefers⟩
  · exact .inr ⟨rfl,below,by simpa using prefers⟩
  · exact .inl ⟨rfl,fun short => absurd short below⟩

theorem largerChild_parent (a : Nat) : parent (largerChild ge base n a) = a := by
  rcases @largerChild_cases _ ge base n a with ⟨left,_⟩ | ⟨right,_⟩
  · rw [left,parent_left]
  · rw [right,parent_right]

theorem largerChild_pos (a : Nat) : 0 < largerChild ge base n a := by
  unfold largerChild
  split_ifs <;> omega

theorem largerChild_lt {a : Nat} (child : 2 * a + 1 < n) : largerChild ge base n a < n := by
  unfold largerChild
  split_ifs <;> omega

theorem inSubtree_largerChild (a : Nat) : InSubtree a (largerChild ge base n a) :=
  InSubtree.down (largerChild_pos a) (by rw [largerChild_parent]; exact InSubtree.refl a)

theorem descend_leaf {a : Nat} (leaf : n ≤ 2 * a + 1) : descend ge base n a = a := by
  rw [descend,if_neg (by omega),if_neg (by omega)]

theorem descend_step {a : Nat} (child : 2 * a + 1 < n) :
    descend ge base n a = descend ge base n (largerChild ge base n a) := by
  unfold largerChild
  by_cases both : 2 * a + 2 < n
  · rw [descend,if_pos both,if_pos both]
  · have last : 2 * a + 2 = n := by omega
    rw [descend,if_neg both,if_pos last,if_neg both,descend_leaf (by omega)]

theorem descend_mem (b : Nat) : InSubtree b (descend ge base n b) ∧ (b < n → descend ge base n b < n) := by
  by_cases child : 2 * b + 1 < n
  · rw [descend_step child]
    obtain ⟨below,inside⟩ := descend_mem (largerChild ge base n b)
    exact ⟨(inSubtree_largerChild b).trans below,fun _ => inside (largerChild_lt child)⟩
  · rw [descend_leaf (by omega)]
    exact ⟨InSubtree.refl b,id⟩
termination_by n - b
decreasing_by have := @largerChild_lt _ ge base _ _ child; unfold largerChild at *; split_ifs at * <;> omega

theorem largerChild_congr {base' : Nat → α} (a : Nat) (agree : ∀ y, a < y → base' y = base y) :
    largerChild ge base' n a = largerChild ge base n a := by
  rw [largerChild,largerChild,agree (2 * a + 1) (by omega),agree (2 * a + 2) (by omega)]

theorem descend_congr {base' : Nat → α} (b : Nat) (agree : ∀ y, b < y → base' y = base y) :
    descend ge base' n b = descend ge base n b := by
  by_cases child : 2 * b + 1 < n
  · rw [descend_step child,descend_step child,largerChild_congr b agree]
    have below : b < largerChild ge base n b := by
      have := parent_lt (@largerChild_pos _ ge base n b)
      rwa [largerChild_parent] at this
    exact descend_congr _ fun y above => agree y (below.trans above)
  · rw [descend_leaf (by omega),descend_leaf (by omega)]
termination_by n - b
decreasing_by have := @largerChild_lt _ ge base _ _ child; omega

end Descend

section Backtrack

variable {ge : α → α → Bool} {base : Nat → α}

theorem backtrack_self (a : Nat) : backtrack ge base a a = a := by
  rw [backtrack,if_neg (by omega)]

theorem backtrack_up {a b : Nat} (below : a < b) (up : ge (base a) (base b) = true) :
    backtrack ge base a b = backtrack ge base a (parent b) := by
  rw [backtrack,if_pos (show a < b ∧ ge (base a) (base b) = true from ⟨below,up⟩)]

theorem backtrack_stop {a b : Nat} (stop : ¬ (a < b ∧ ge (base a) (base b) = true)) : backtrack ge base a b = b := by
  rw [backtrack,if_neg stop]

theorem backtrack_mem {c : Nat} (b : Nat) (member : InSubtree c b) :
    InSubtree c (backtrack ge base c b) ∧ backtrack ge base c b ≤ b := by
  rw [backtrack]
  split_ifs with up
  · obtain ⟨pos,parentMember⟩ := member.up (by omega)
    obtain ⟨inside,le⟩ := backtrack_mem (parent b) parentMember
    exact ⟨inside,le.trans (parent_lt pos).le⟩
  · exact ⟨member,le_refl b⟩
termination_by b
decreasing_by exact parent_lt (by omega)

theorem backtrack_moves {a c : Nat} {base' : Nat → α} (isParent : parent c = a) (pos : 0 < c)
    (moved : base' c = base a) (agree : ∀ y, InSubtree c y → y ≠ c → base' y = base y)
    (moves : ge (base a) (base c) = false) (b : Nat) (member : InSubtree c b) :
    backtrack ge base a b = backtrack ge base' c b := by
  by_cases top : b = c
  · subst top
    rw [backtrack,if_neg (by rw [moves]; simp),backtrack_self]
  · have below : c < b := lt_of_le_of_ne member.le (Ne.symm top)
    have cAbove : a < c := by
      have := parent_lt pos
      rwa [isParent] at this
    obtain ⟨bPos,parentMember⟩ := member.up top
    conv_lhs => rw [backtrack]
    conv_rhs => rw [backtrack]
    rw [moved,agree b member top]
    by_cases up : ge (base a) (base b) = true
    · rw [if_pos ⟨cAbove.trans below,up⟩,if_pos ⟨below,up⟩]
      exact backtrack_moves isParent pos moved agree moves (parent b) parentMember
    · rw [if_neg (by simp [up]),if_neg (by simp [up])]
termination_by b
decreasing_by exact parent_lt bPos

theorem backtrack_stays {a c n : Nat} (isParent : parent c = a) (pos : 0 < c)
    (stays : ∀ y, InSubtree c y → y < n → ge (base a) (base y) = true) (b : Nat) (member : InSubtree c b)
    (inside : b < n) : backtrack ge base a b = a := by
  have above : a < b := by
    have := member.le
    have := parent_lt pos
    omega
  rw [backtrack,if_pos ⟨above,stays b member inside⟩]
  by_cases top : b = c
  · subst top
    rw [isParent,backtrack_self]
  · obtain ⟨bPos,parentMember⟩ := member.up top
    exact backtrack_stays isParent pos stays (parent b) parentMember ((parent_lt bPos).trans inside)
termination_by b
decreasing_by exact parent_lt bPos

end Backtrack

section ShiftUp

theorem shiftUp_self (base : Nat → α) (a t : Nat) : shiftUp base a t a = base := by
  rw [shiftUp,if_neg (by omega)]

theorem shiftUp_swap_below {a c t : Nat} (isParent : parent c = a) (pos : 0 < c) (b : Nat) (base : Nat → α)
    (member : InSubtree c b) (other : b ≠ c) (onPath : b ≤ t) :
    shiftUp base a t b = shiftUp (swap base a c) c t b := by
  have cAbove : a < c := by
    have := parent_lt pos
    rwa [isParent] at this
  have bBelow : c < b := lt_of_le_of_ne member.le (Ne.symm other)
  obtain ⟨bPos,parentMember⟩ := member.up other
  conv_lhs => rw [shiftUp,if_pos (show a < b by omega)]
  conv_rhs => rw [shiftUp,if_pos bBelow]
  by_cases last : parent b = c
  · rw [last,shiftUp,if_pos cAbove,isParent,shiftUp_self,shiftUp_self]
    exact swap_swap_three base (by omega) (by omega) (by omega)
  · have parentBelow : c < parent b := lt_of_le_of_ne parentMember.le (Ne.symm last)
    rw [shiftUp_swap_below isParent pos (parent b) (swap base (parent b) t) parentMember last
      ((parent_lt bPos).le.trans onPath),swap_comm_of_ne base (by omega) (by omega) (by omega) (by omega)]
termination_by b
decreasing_by exact parent_lt bPos

theorem shiftUp_swap {a c t : Nat} (isParent : parent c = a) (pos : 0 < c) (base : Nat → α) (member : InSubtree c t) :
    shiftUp base a t t = shiftUp (swap base a c) c t t := by
  by_cases top : t = c
  · subst top
    have cAbove : a < t := by
      have := parent_lt pos
      rwa [isParent] at this
    rw [shiftUp,if_pos cAbove,isParent,shiftUp_self,shiftUp_self]
  · exact shiftUp_swap_below isParent pos t base member top (le_refl t)

end ShiftUp

section Sift

variable {pick ge : α → α → Bool} {base : Nat → α} {n : Nat}

theorem sift_leaf {a : Nat} (leaf : n ≤ 2 * a + 1) : sift pick ge base n a = base := by
  rw [sift,descend_leaf leaf,backtrack_self,shiftUp_self]

theorem sift_moves {a : Nat} (child : 2 * a + 1 < n)
    (moves : ge (base a) (base (largerChild pick base n a)) = false) :
    sift pick ge base n a = sift pick ge (swap base a (largerChild pick base n a)) n (largerChild pick base n a) := by
  have isParent := @largerChild_parent _ pick base n a
  have pos := @largerChild_pos _ pick base n a
  have cAbove : a < largerChild pick base n a := by
    have := parent_lt pos
    rwa [isParent] at this
  have leafMember := (@descend_mem _ pick base n (largerChild pick base n a)).1
  have sameDescent : descend pick (swap base a (largerChild pick base n a)) n (largerChild pick base n a) =
      descend pick base n (largerChild pick base n a) :=
    descend_congr _ fun y above => swap_other base (by omega) (by omega)
  have sameStop := backtrack_moves isParent pos (swap_right base a _)
    (fun y member other => swap_other base (by have := member.le; omega) other) moves _ leafMember
  unfold sift
  rw [descend_step child,sameDescent,sameStop]
  exact shiftUp_swap isParent pos base (backtrack_mem _ leafMember).1

theorem sift_stays {a : Nat} (child : 2 * a + 1 < n)
    (stays : ∀ y, InSubtree (largerChild pick base n a) y → y < n → ge (base a) (base y) = true) :
    sift pick ge base n a = base := by
  have leaf := @descend_mem _ pick base n (largerChild pick base n a)
  unfold sift
  rw [descend_step child,backtrack_stays (largerChild_parent a) (largerChild_pos a) stays _ leaf.1
    (leaf.2 (largerChild_lt child)),shiftUp_self]

end Sift

section Heap

variable {β : Type} [LinearOrder β] (rank : α → β)

-- The comparison of a rank as the sort takes it: whether l >= r.
def geOf (x y : α) : Bool := decide (rank y ≤ rank x)

-- A path comparison that takes a child ranking at least its sibling; ties may go
-- either way.
def PicksLarger (pick : α → α → Bool) : Prop :=
  ∀ x y, (pick x y = true → rank y ≤ rank x) ∧ (pick x y = false → rank x ≤ rank y)

-- Inside a's subtree of the first n, each node ranks at most its parent: on
-- every edge below a (OrderedBelow), or on every edge (OrderedUnder).
def OrderedBelow (base : Nat → α) (n a : Nat) : Prop :=
  ∀ y, 0 < y → y < n → InSubtree a (parent y) → parent y ≠ a → rank (base y) ≤ rank (base (parent y))

def OrderedUnder (base : Nat → α) (n a : Nat) : Prop :=
  ∀ y, 0 < y → y < n → InSubtree a (parent y) → rank (base y) ≤ rank (base (parent y))

-- The heap on the first n, checked on the edges out of the nodes from lo on.
def HeapFrom (base : Nat → α) (n lo : Nat) : Prop :=
  ∀ y, 0 < y → y < n → lo ≤ parent y → rank (base y) ≤ rank (base (parent y))

-- The extraction phase's invariant: the first n form a heap, and the rest hold
-- the largest elements in order.
structure Extracting (base : Nat → α) (n num : Nat) : Prop where
  heap : HeapFrom rank base n 0
  below : ∀ i j, i < n → n ≤ j → j < num → rank (base i) ≤ rank (base j)
  sorted : ∀ i j, n ≤ i → i ≤ j → j < num → rank (base i) ≤ rank (base j)

-- The loop's invariant: building while a is positive, extracting after.
def SortInv (base : Nat → α) (a n num : Nat) : Prop :=
  1 ≤ n ∧ n ≤ num ∧ (0 < a → HeapFrom rank base n a ∧ n = num) ∧ (a = 0 → Extracting rank base n num)

variable {rank}

theorem OrderedUnder.top {base : Nat → α} {n a : Nat} (ordered : OrderedUnder rank base n a) :
    ∀ y, InSubtree a y → y < n → rank (base y) ≤ rank (base a) := by
  intro y
  induction y using Nat.strong_induction_on with
  | _ y ih =>
    intro member inside
    by_cases top : y = a
    · rw [top]
    · obtain ⟨pos,parentMember⟩ := member.up top
      exact (ordered y pos inside parentMember).trans
        (ih (parent y) (parent_lt pos) parentMember ((parent_lt pos).trans inside))

theorem OrderedBelow.under_child {base : Nat → α} {n a c : Nat} (ordered : OrderedBelow rank base n a)
    (isParent : parent c = a) (pos : 0 < c) : OrderedUnder rank base n c := by
  intro y yPos inside member
  have cAbove : a < c := by
    have := parent_lt pos
    rwa [isParent] at this
  refine ordered y yPos inside ((InSubtree.down pos (isParent ▸ InSubtree.refl a)).trans member) ?_
  have := member.le
  omega

theorem perm_mem_of_fixes {S : Nat → Prop} {σ : Equiv.Perm ℕ} (fixes : ∀ y, ¬ S y → σ y = y) {y : Nat}
    (member : S y) : S (σ y) := by
  by_contra outside
  have same := fixes (σ y) outside
  rw [σ.injective same] at outside
  exact outside member

theorem siblings_of_parent {a y : Nat} (pos : 0 < y) (isParent : parent y = a) : y = 2 * a + 1 ∨ y = 2 * a + 2 := by
  unfold parent at isParent
  omega

variable {n : Nat} {pick : α → α → Bool}

theorem sift_spec (picks : PicksLarger rank pick) (a : Nat) (base : Nat → α) (below : OrderedBelow rank base n a) :
    OrderedUnder rank (sift pick (geOf rank) base n a) n a ∧
      ∃ σ : Equiv.Perm ℕ, (∀ y, ¬ (InSubtree a y ∧ y < n) → σ y = y) ∧ sift pick (geOf rank) base n a = base ∘ σ := by
  by_cases child : 2 * a + 1 < n
  · have isParent := @largerChild_parent _ pick base n a
    have pos := @largerChild_pos _ pick base n a
    have cInside := @largerChild_lt _ pick base _ _ child
    have cMember := @inSubtree_largerChild _ pick base n a
    have cAbove : a < largerChild pick base n a := by
      have := parent_lt pos
      rwa [isParent] at this
    have underC := below.under_child isParent pos
    -- the other child ranks at most the larger one
    have sibling : ∀ y, 0 < y → y < n → parent y = a → y ≠ largerChild pick base n a →
        rank (base y) ≤ rank (base (largerChild pick base n a)) := by
      intro y yPos inside yParent other
      rcases @largerChild_cases _ pick base n a with ⟨left,prefers⟩ | ⟨right,_,prefers⟩
      · rcases siblings_of_parent yPos yParent with rfl | rfl
        · exact absurd left.symm other
        · rw [left]
          exact (picks _ _).1 (prefers inside)
      · rcases siblings_of_parent yPos yParent with rfl | rfl
        · rw [right]
          exact (picks _ _).2 prefers
        · exact absurd right.symm other
    cases moves : geOf rank (base a) (base (largerChild pick base n a)) with
    | false =>
      set c := largerChild pick base n a with cDef
      have lower : rank (base a) < rank (base c) := by simpa [geOf] using moves
      rw [sift_moves child moves]
      -- below c, nothing moved in the swap
      have belowC : OrderedBelow rank (swap base a c) n c := by
        intro y yPos inside member other
        have yMember : InSubtree c y := member.trans (InSubtree.down yPos (InSubtree.refl _))
        have yBelow : c < y := lt_of_le_of_ne yMember.le (by intro same; rw [← same] at member; exact other (by
          have := member.le; have := parent_lt yPos; omega))
        have parentBelow : c < parent y := lt_of_le_of_ne member.le (Ne.symm other)
        rw [swap_other base (by omega) (by omega),swap_other base (by omega) (by omega)]
        exact below y yPos inside (cMember.trans member) (by omega)
      obtain ⟨orderedC,σ,fixes,sifted⟩ := sift_spec picks c (swap base a c) belowC
      -- what the sift at c leaves in c's subtree came from there
      have fromC : ∀ y, InSubtree c y → y < n → rank (swap base a c (σ y)) ≤ rank (base c) := by
        intro y member inside
        obtain ⟨zMember,zInside⟩ := perm_mem_of_fixes (S := fun z => InSubtree c z ∧ z < n) fixes ⟨member,inside⟩
        by_cases top : σ y = c
        · rw [top,swap_right]
          exact lower.le
        · rw [swap_other base (by have := zMember.le; omega) top]
          exact underC.top _ zMember zInside
      have fixedOutside : ∀ y, ¬ InSubtree c y → σ y = y := fun y outside => fixes y fun ⟨m,_⟩ => outside m
      refine ⟨?_,Equiv.swap a c * σ,?_,?_⟩
      · intro y yPos inside member
        rw [sifted]
        by_cases underTop : InSubtree c (parent y)
        · have := orderedC y yPos inside underTop
          rwa [sifted] at this
        · have aFixed : σ a = a := fixedOutside a (fun m => by have := m.le; omega)
          by_cases atTop : parent y = a
          · simp only [Function.comp_apply,atTop,aFixed,swap_left]
            by_cases isC : y = c
            · rw [isC]
              exact fromC c (InSubtree.refl c) cInside
            · have yOutside : ¬ InSubtree c y := by
                intro m
                rcases siblings_of_parent yPos atTop with rfl | rfl <;>
                  rcases siblings_of_parent pos isParent with hc | hc <;> rw [hc] at m isC
                all_goals first | exact isC rfl | exact inSubtree_siblings m (InSubtree.refl _) |
                  exact inSubtree_siblings (InSubtree.refl _) m
              have yNotA : y ≠ a := by have := parent_lt yPos; omega
              rw [fixedOutside y yOutside,swap_other base yNotA isC]
              exact sibling y yPos inside atTop isC
          · -- an edge under a's other child: untouched
            have yOutside : ¬ InSubtree c y := fun m => underTop ((m.up (by
              intro same; rw [same] at atTop; exact atTop isParent)).2)
            have parentNotA : parent y ≠ a := atTop
            have parentNotC : parent y ≠ c := fun same => underTop (same ▸ InSubtree.refl c)
            have yNotA : y ≠ a := by have := member.le; have := parent_lt yPos; omega
            have yNotC : y ≠ c := fun same => yOutside (same ▸ InSubtree.refl c)
            simp only [Function.comp_apply,fixedOutside y yOutside,fixedOutside (parent y) underTop]
            rw [swap_other base yNotA yNotC,swap_other base parentNotA parentNotC]
            exact below y yPos inside member parentNotA
      · intro y outside
        have notC : ¬ (InSubtree c y ∧ y < n) := fun ⟨m,i⟩ => outside ⟨cMember.trans m,i⟩
        have yNotA : y ≠ a := fun same => outside ⟨same ▸ InSubtree.refl a,by omega⟩
        have yNotC : y ≠ c := fun same => outside ⟨same ▸ cMember,same ▸ cInside⟩
        rw [Equiv.Perm.mul_apply,fixes y notC,Equiv.swap_apply_of_ne_of_ne yNotA yNotC]
      · rw [sifted]
        rfl
    | true =>
      have higher : rank (base (largerChild pick base n a)) ≤ rank (base a) := by simpa [geOf] using moves
      have stays : ∀ y, InSubtree (largerChild pick base n a) y → y < n → geOf rank (base a) (base y) = true := by
        intro y member inside
        simpa [geOf] using (underC.top y member inside).trans higher
      rw [sift_stays child stays]
      refine ⟨?_,1,fun _ _ => rfl,rfl⟩
      intro y yPos inside member
      by_cases atTop : parent y = a
      · rw [atTop]
        by_cases isC : y = largerChild pick base n a
        · rw [isC]
          exact higher
        · exact (sibling y yPos inside atTop isC).trans higher
      · exact below y yPos inside member atTop
  · rw [sift_leaf (by omega)]
    refine ⟨?_,1,fun _ _ => rfl,rfl⟩
    intro y yPos inside member
    by_cases atTop : parent y = a
    · rcases siblings_of_parent yPos atTop with rfl | rfl <;> omega
    · exact below y yPos inside member atTop
termination_by n - a
decreasing_by omega

theorem inSubtree_zero (y : Nat) : InSubtree 0 y := by
  induction y using Nat.strong_induction_on with
  | _ y ih =>
    rcases Nat.eq_zero_or_pos y with rfl | pos
    · exact InSubtree.refl 0
    · exact InSubtree.down pos (ih (parent y) (parent_lt pos))

theorem HeapFrom.orderedBelow {base : Nat → α} {a : Nat} (heap : HeapFrom rank base n (a + 1)) :
    OrderedBelow rank base n a := by
  intro y pos inside member other
  exact heap y pos inside (by have := member.le; omega)

theorem orderedUnder_zero_iff {base : Nat → α} : OrderedUnder rank base n 0 ↔ HeapFrom rank base n 0 :=
  ⟨fun ordered y pos inside _ => ordered y pos inside (inSubtree_zero _),
    fun heap y pos inside _ => heap y pos inside (Nat.zero_le _)⟩

theorem sift_heapFrom (picks : PicksLarger rank pick) {base : Nat → α} {a : Nat} (heap : HeapFrom rank base n (a + 1)) :
    HeapFrom rank (sift pick (geOf rank) base n a) n a ∧
      ∃ σ : Equiv.Perm ℕ, (∀ y, n ≤ y → σ y = y) ∧ sift pick (geOf rank) base n a = base ∘ σ := by
  obtain ⟨ordered,σ,fixes,sifted⟩ := sift_spec picks a base heap.orderedBelow
  refine ⟨?_,σ,fun y outside => fixes y fun ⟨_,inside⟩ => by omega,sifted⟩
  intro y pos inside lo
  by_cases member : InSubtree a (parent y)
  · exact ordered y pos inside member
  · -- an edge outside a's subtree, which the sift leaves alone
    have other : parent y ≠ a := fun same => member (same ▸ InSubtree.refl a)
    have yOutside : ¬ InSubtree a y := fun m => member (m.up (by have := parent_lt pos; omega)).2
    rw [sifted,Function.comp_apply,Function.comp_apply,fixes y fun ⟨m,_⟩ => yOutside m,
      fixes (parent y) fun ⟨m,_⟩ => member m]
    exact heap y pos inside (by omega)

theorem HeapFrom.root_max {base : Nat → α} (heap : HeapFrom rank base n 0) {y : Nat} (inside : y < n) :
    rank (base y) ≤ rank (base 0) :=
  (orderedUnder_zero_iff.mpr heap).top y (inSubtree_zero y) inside

theorem extract_step (picks : PicksLarger rank pick) {base : Nat → α} {num : Nat} (ext : Extracting rank base n num) (many : 1 < n) :
    Extracting rank (sift pick (geOf rank) (swap base 0 (n - 1)) (n - 1) 0) (n - 1) num ∧
      ∃ σ : Equiv.Perm ℕ, (∀ y, n ≤ y → σ y = y) ∧
        sift pick (geOf rank) (swap base 0 (n - 1)) (n - 1) 0 = base ∘ σ := by
  -- away from the root and the last leaf the swap changes nothing
  have belowRoot : OrderedBelow rank (swap base 0 (n - 1)) (n - 1) 0 := by
    intro y pos inside _ other
    have parentPos : 0 < parent y := Nat.pos_of_ne_zero other
    rw [swap_other base (by omega) (by omega),swap_other base (by omega) (by have := parent_lt pos; omega)]
    exact ext.heap y pos (by omega) (Nat.zero_le _)
  obtain ⟨ordered,σ,fixes,sifted⟩ := sift_spec picks 0 (swap base 0 (n - 1)) belowRoot
  have fixedAbove : ∀ y, n - 1 ≤ y → σ y = y := fun y above => fixes y fun ⟨_,inside⟩ => by omega
  -- every element left in the heap comes from the old heap
  have fromHeap : ∀ i, i < n - 1 → rank (sift pick (geOf rank) (swap base 0 (n - 1)) (n - 1) 0 i) ≤ rank (base 0) := by
    intro i inside
    obtain ⟨_,zInside⟩ := perm_mem_of_fixes (S := fun z => InSubtree 0 z ∧ z < n - 1) fixes
      ⟨inSubtree_zero i,inside⟩
    rw [sifted,Function.comp_apply]
    by_cases root : σ i = 0
    · rw [root,swap_left]
      exact ext.heap.root_max (by omega)
    · rw [swap_other base root (by omega)]
      exact ext.heap.root_max (by omega)
  have tail : ∀ j, n - 1 ≤ j → sift pick (geOf rank) (swap base 0 (n - 1)) (n - 1) 0 j = swap base 0 (n - 1) j := by
    intro j above
    rw [sifted,Function.comp_apply,fixedAbove j above]
  refine ⟨⟨orderedUnder_zero_iff.mp ordered,?_,?_⟩,Equiv.swap 0 (n - 1) * σ,fun y above => ?_,by rw [sifted]; rfl⟩
  · intro i j inside above bounded
    refine (fromHeap i inside).trans ?_
    rw [tail j above]
    by_cases last : j = n - 1
    · rw [last,swap_right]
    · rw [swap_other base (by omega) last]
      exact ext.below 0 j (by omega) (by omega) bounded
  · intro i j above ordered' bounded
    rw [tail i above,tail j (by omega)]
    by_cases last : i = n - 1
    · by_cases same : j = n - 1
      · rw [last,same]
      · rw [last,swap_right,swap_other base (by omega) same]
        exact ext.below 0 j (by omega) (by omega) bounded
    · rw [swap_other base (by omega) last,swap_other base (by omega) (by omega)]
      exact ext.sorted i j (by omega) ordered' bounded
  · rw [Equiv.Perm.mul_apply,fixedAbove y (by omega),Equiv.swap_apply_of_ne_of_ne (by omega) (by omega)]

theorem extracting_of_heap {base : Nat → α} (heap : HeapFrom rank base n 0) : Extracting rank base n n :=
  ⟨heap,fun _ _ inside above bounded => by omega,fun _ _ above _ bounded => by omega⟩

theorem sortLoop_spec (picks : PicksLarger rank pick) (base : Nat → α) (a n num : Nat) (inv : SortInv rank base a n num) :
    (∀ i j, i ≤ j → j < num → rank (sortLoop pick (geOf rank) base a n i) ≤ rank (sortLoop pick (geOf rank) base a n j)) ∧
      ∃ σ : Equiv.Perm ℕ, (∀ y, num ≤ y → σ y = y) ∧ sortLoop pick (geOf rank) base a n = base ∘ σ := by
  obtain ⟨one,bounded,building,extracting⟩ := inv
  by_cases pos : 0 < a
  · -- building: the sift at a - 1
    obtain ⟨heap,whole⟩ := building pos
    obtain ⟨heap',σ,fixes,sifted⟩ := sift_heapFrom picks (n := n) (a := a - 1) (by rwa [Nat.sub_add_cancel pos])
    have next : SortInv rank (sift pick (geOf rank) base n (a - 1)) (a - 1) n num :=
      ⟨one,bounded,fun pos' => ⟨heap',whole⟩,fun zero => whole ▸ extracting_of_heap (zero ▸ heap')⟩
    obtain ⟨sorted,τ,fixesτ,result⟩ := sortLoop_spec picks _ (a - 1) n num next
    rw [sortLoop,if_pos pos]
    refine ⟨sorted,σ * τ,fun y above => ?_,by rw [result,sifted]; rfl⟩
    rw [Equiv.Perm.mul_apply,fixesτ y above,fixes y (by omega)]
  · have zero : a = 0 := by omega
    have ext := extracting zero
    by_cases many : 1 < n
    · -- extracting: the root goes to n - 1
      obtain ⟨ext',σ,fixes,sifted⟩ := extract_step picks ext many
      have next : SortInv rank (sift pick (geOf rank) (swap base 0 (n - 1)) (n - 1) 0) 0 (n - 1) num :=
        ⟨by omega,by omega,fun absurd => absurd.false.elim,fun _ => ext'⟩
      obtain ⟨sorted,τ,fixesτ,result⟩ := sortLoop_spec picks _ 0 (n - 1) num next
      rw [sortLoop,if_neg pos,if_pos many]
      refine ⟨sorted,σ * τ,fun y above => ?_,by rw [result,sifted]; rfl⟩
      rw [Equiv.Perm.mul_apply,fixesτ y above,fixes y (by omega)]
    · -- done: at most the root is left of the heap
      rw [sortLoop,if_neg pos,if_neg many]
      refine ⟨fun i j ordered bounded => ?_,1,fun _ _ => rfl,rfl⟩
      by_cases inHeap : i < n
      · by_cases same : i = j
        · rw [same]
        · exact ext.below i j inHeap (by omega) bounded
      · exact ext.sorted i j (by omega) ordered bounded
termination_by a + n

theorem sortBy_spec (picks : PicksLarger rank pick) (base : Nat → α) (num : Nat) :
    (∀ i j, i ≤ j → j < num → rank (sortBy pick (geOf rank) base num i) ≤ rank (sortBy pick (geOf rank) base num j)) ∧
      ∃ σ : Equiv.Perm ℕ, (∀ y, num ≤ y → σ y = y) ∧ sortBy pick (geOf rank) base num = base ∘ σ := by
  unfold sortBy
  split_ifs with few
  · refine ⟨fun i j ordered bounded => ?_,1,fun _ _ => rfl,rfl⟩
    rw [show i = j by omega]
  · exact sortLoop_spec picks base (num / 2) num num
      ⟨by omega,le_rfl,fun _ => ⟨fun y _ inside lo => by unfold parent at lo; omega,rfl⟩,fun zero => by omega⟩

theorem picksLarger_geOf : PicksLarger rank (geOf rank) := by
  intro x y
  constructor
  · intro prefers
    simpa [geOf] using prefers
  · intro other
    simp only [geOf,decide_eq_false_iff_not,not_le] at other
    exact other.le

theorem sort_spec (base : Nat → α) (num : Nat) :
    (∀ i j, i ≤ j → j < num → rank (sort (geOf rank) base num i) ≤ rank (sort (geOf rank) base num j)) ∧
      ∃ σ : Equiv.Perm ℕ, (∀ y, num ≤ y → σ y = y) ∧ sort (geOf rank) base num = base ∘ σ :=
  sortBy_spec picksLarger_geOf base num

end Heap

theorem range_map_perm {σ : Equiv.Perm ℕ} {num : Nat} (fixes : ∀ y, num ≤ y → σ y = y) :
    ((List.range num).map σ).Perm (List.range num) := by
  have inside : ∀ {τ : Equiv.Perm ℕ}, (∀ y, num ≤ y → τ y = y) → ∀ y, y < num → τ y < num :=
    fun fixesτ _ below => perm_mem_of_fixes (S := fun z => z < num) (fun z outside => fixesτ z (by omega)) below
  have fixesInv : ∀ y, num ≤ y → σ.symm y = y := by
    intro y above
    rw [Equiv.symm_apply_eq,fixes y above]
  rw [List.perm_ext_iff_of_nodup (List.nodup_range.map σ.injective) List.nodup_range]
  intro x
  simp only [List.mem_map,List.mem_range]
  constructor
  · rintro ⟨y,below,rfl⟩
    exact inside fixes y below
  · intro below
    exact ⟨σ.symm x,inside fixesInv x below,by simp⟩

end HeapSort
