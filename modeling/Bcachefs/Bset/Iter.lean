import Bcachefs.Bset.Node
import Bcachefs.Lib.SortedRuns

namespace Bcachefs
open SortedRuns

-- struct btree_node_iter_set: the offset of a set's next key and of its end
-- (`end` is a keyword here).
structure BtreeNodeIterSet where
  k : Nat
  stop : Nat
  deriving DecidableEq, Repr

-- struct btree_node_iter: data[MAX_BSETS], one field per slot.
structure BtreeNodeIter where
  data0 : BtreeNodeIterSet
  data1 : BtreeNodeIterSet
  data2 : BtreeNodeIterSet
  deriving DecidableEq, Repr

-- __btree_node_iter_set_end
def BtreeNodeIterSet.atEnd (s : BtreeNodeIterSet) : Bool := s.k == s.stop

-- memset(iter, 0, sizeof(*iter))
def btreeNodeIterEmpty : BtreeNodeIter := ⟨⟨0,0⟩,⟨0,0⟩,⟨0,0⟩⟩

def bch2BtreeNodeIterEnd (iter : BtreeNodeIter) : Bool := iter.data0.atEnd

def btreeNodeIterCmp (node : BtreeNode) (l r : BtreeNodeIterSet) : Ordering := bkeyIterCmp node l.k r.k

-- Swaps slots `first` and `first + 1` when they are out of order; says whether it did.
def btreeNodeIterSortTwo (node : BtreeNode) (iter : BtreeNodeIter) (first : Fin 2) : Bool × BtreeNodeIter :=
  match first with
  | 0 =>
    if btreeNodeIterCmp node iter.data0 iter.data1 = .gt then (true,{iter with data0 := iter.data1,data1 := iter.data0})
    else (false,iter)
  | 1 =>
    if btreeNodeIterCmp node iter.data1 iter.data2 = .gt then (true,{iter with data1 := iter.data2,data2 := iter.data1})
    else (false,iter)

-- The unrolled bubble sort.
def bch2BtreeNodeIterSort (node : BtreeNode) (iter : BtreeNodeIter) : BtreeNodeIter :=
  let iter := if !iter.data2.atEnd then (btreeNodeIterSortTwo node (btreeNodeIterSortTwo node iter 0).2 1).2 else iter
  if !iter.data1.atEnd then (btreeNodeIterSortTwo node iter 0).2 else iter

-- __bch2_btree_node_iter_push: the set goes in the first slot at its end. A
-- fourth set would trip the BUG_ON; a node has at most MAX_BSETS bsets.
def rawBch2BtreeNodeIterPush (iter : BtreeNodeIter) (k stop : Nat) : BtreeNodeIter :=
  if k ≠ stop then
    if iter.data0.atEnd then {iter with data0 := ⟨k,stop⟩}
    else if iter.data1.atEnd then {iter with data1 := ⟨k,stop⟩}
    else if iter.data2.atEnd then {iter with data2 := ⟨k,stop⟩}
    else iter
  else iter

def bch2BtreeNodeIterInitFromStart (node : BtreeNode) : BtreeNodeIter :=
  bch2BtreeNodeIterSort node
    (node.set.foldl (fun iter t => rawBch2BtreeNodeIterPush iter (btreeBkeyFirstOffset t) t.endOffset)
      btreeNodeIterEmpty)

-- `*pos = ...` for the slot `pos` points at.
def BtreeNodeIter.setSlot (iter : BtreeNodeIter) (pos : Nat) (s : BtreeNodeIterSet) : BtreeNodeIter :=
  match pos with
  | 0 => {iter with data0 := s}
  | 1 => {iter with data1 := s}
  | 2 => {iter with data2 := s}
  | _ => iter

-- bch2_btree_node_iter_init once its searches are done: found[i] is what
-- bch2_bset_search_linear returned in bset i. Every one short of its bset's end
-- fills the next slot (`*pos++`), and the slots are sorted.
def btreeNodeIterInitFound (node : BtreeNode) (found : List Nat) : BtreeNodeIter :=
  let filled := (node.set.zip found).foldl
    (fun (acc : BtreeNodeIter × Nat) (tk : BsetTree × Nat) =>
      if tk.2 ≠ tk.1.endOffset then (acc.1.setSlot acc.2 ⟨tk.2,tk.1.endOffset⟩,acc.2 + 1) else acc)
    (btreeNodeIterEmpty,0)
  bch2BtreeNodeIterSort node filled.1

-- bch2_btree_node_iter_peek_all, as the offset of the key.
def bch2BtreeNodeIterPeekAll (iter : BtreeNodeIter) : Option Nat :=
  if bch2BtreeNodeIterEnd iter then none else some iter.data0.k

-- __bch2_btree_node_iter_advance: step the first set past its key, then drop it
-- if it ended, or move it back among the others.
def rawBch2BtreeNodeIterAdvance (node : BtreeNode) (iter : BtreeNodeIter) : BtreeNodeIter :=
  let iter := {iter with data0 := {iter.data0 with k := bkeyPNext node iter.data0.k}}
  if iter.data0.atEnd then ⟨iter.data1,iter.data2,⟨0,0⟩⟩
  else if iter.data1.atEnd then iter
  else
    let moved := btreeNodeIterSortTwo node iter 0
    if !moved.1 then moved.2
    else if moved.2.data2.atEnd then moved.2
    else (btreeNodeIterSortTwo node moved.2 1).2

-- bch2_btree_node_iter_advance with bch2_expensive_debug_checks off.
def bch2BtreeNodeIterAdvance (node : BtreeNode) (iter : BtreeNodeIter) : BtreeNodeIter :=
  rawBch2BtreeNodeIterAdvance node iter

-- One round of the loop: the key peek_all shows, and the iterator advanced past it.
def btreeNodeIterNext (node : BtreeNode) (iter : BtreeNodeIter) : Option (Nat × BtreeNodeIter) :=
  (bch2BtreeNodeIterPeekAll iter).map fun k => (k,bch2BtreeNodeIterAdvance node iter)

-- The keys `fuel` rounds of peek_all and advance hand out, until the iterator ends.
def btreeNodeIterDrain (node : BtreeNode) (fuel : Nat) (iter : BtreeNodeIter) : List Nat :=
  drain (btreeNodeIterNext node) fuel iter

def BtreeNodeIter.slots (iter : BtreeNodeIter) : List BtreeNodeIterSet := [iter.data0,iter.data1,iter.data2]

-- btree_node_iter_for_each: the sets up to the first one at its end.
def BtreeNodeIter.live (iter : BtreeNodeIter) : List BtreeNodeIterSet := iter.slots.takeWhile fun s => !s.atEnd

-- The keys a set has yet to hand out, and those of the whole iterator.
def keysOf (node : BtreeNode) (s : BtreeNodeIterSet) : List Nat := bsetKeysFrom node s.k s.stop

def iterKeys (node : BtreeNode) (iter : BtreeNodeIter) : List Nat := (iter.live.map (keysOf node)).flatten

-- What bch2_btree_node_iter_verify checks of the live sets, with no live set
-- after one that ended: each set is a key of a bset and that bset's end, no
-- two for one bset, in btree_node_iter_cmp order.
structure IterValid (node : BtreeNode) (iter : BtreeNodeIter) : Prop where
  ended : (iter.data0.atEnd → iter.data1.atEnd) ∧ (iter.data1.atEnd → iter.data2.atEnd)
  inSets : ∀ s ∈ iter.live, ∃ t ∈ node.set, s.stop = t.endOffset ∧ s.k ∈ bsetKeys node t
  ends : (iter.live.map (·.stop)).Nodup
  sorted : iter.live.IsChain fun l r => btreeNodeIterCmp node l r ≠ .gt

section Slots

-- The iterator whose slots hold `sets` in order and are zero after them.
def iterOfList : List BtreeNodeIterSet → BtreeNodeIter
  | [] => btreeNodeIterEmpty
  | [a] => ⟨a,⟨0,0⟩,⟨0,0⟩⟩
  | [a,b] => ⟨a,b,⟨0,0⟩⟩
  | a :: b :: c :: _ => ⟨a,b,c⟩

def AllLive (sets : List BtreeNodeIterSet) : Prop := ∀ s ∈ sets, s.atEnd = false

theorem zero_atEnd : (⟨0,0⟩ : BtreeNodeIterSet).atEnd = true := rfl

theorem atEnd_eq_false {s : BtreeNodeIterSet} : s.atEnd = false ↔ s.k ≠ s.stop := by
  simp [BtreeNodeIterSet.atEnd]

theorem atEnd_eq_true {s : BtreeNodeIterSet} : s.atEnd = true ↔ s.k = s.stop := by
  simp [BtreeNodeIterSet.atEnd]

theorem live_iterOfList {sets : List BtreeNodeIterSet} (live : AllLive sets) (short : sets.length ≤ MAX_BSETS) :
    (iterOfList sets).live = sets ∧
      (((iterOfList sets).data0.atEnd → (iterOfList sets).data1.atEnd) ∧
        ((iterOfList sets).data1.atEnd → (iterOfList sets).data2.atEnd)) := by
  unfold MAX_BSETS at short
  match sets, live with
  | [], _ => simp [iterOfList,btreeNodeIterEmpty,BtreeNodeIter.live,BtreeNodeIter.slots,zero_atEnd]
  | [a], live => simp [iterOfList,BtreeNodeIter.live,BtreeNodeIter.slots,zero_atEnd,live a]
  | [a,b], live => simp [iterOfList,BtreeNodeIter.live,BtreeNodeIter.slots,zero_atEnd,live a,live b]
  | [a,b,c], live => simp [iterOfList,BtreeNodeIter.live,BtreeNodeIter.slots,live a,live b,live c]

theorem push_iterOfList {sets : List BtreeNodeIterSet} (live : AllLive sets) (short : sets.length < MAX_BSETS)
    {k stop : Nat} (nonempty : k ≠ stop) :
    rawBch2BtreeNodeIterPush (iterOfList sets) k stop = iterOfList (sets ++ [⟨k,stop⟩]) := by
  unfold MAX_BSETS at short
  match sets, live with
  | [], _ => simp [rawBch2BtreeNodeIterPush,iterOfList,btreeNodeIterEmpty,nonempty,zero_atEnd]
  | [a], live => simp [rawBch2BtreeNodeIterPush,iterOfList,nonempty,zero_atEnd,live a]
  | [a,b], live => simp [rawBch2BtreeNodeIterPush,iterOfList,nonempty,zero_atEnd,live a,live b]

theorem setSlot_iterOfList {sets : List BtreeNodeIterSet} (short : sets.length < MAX_BSETS)
    (s : BtreeNodeIterSet) : (iterOfList sets).setSlot sets.length s = iterOfList (sets ++ [s]) := by
  unfold MAX_BSETS at short
  match sets with
  | [] => rfl
  | [_] => rfl
  | [_,_] => rfl

end Slots

section Sorting

variable {node : BtreeNode}

def setRank (node : BtreeNode) (s : BtreeNodeIterSet) : Nat := iterRank node s.k

def SetsInNode (node : BtreeNode) (sets : List BtreeNodeIterSet) : Prop := ∀ s ∈ sets, InNode node s.k

theorem btreeNodeIterCmp_gt_iff (valid : NodeValid node) {l r : BtreeNodeIterSet} (inL : InNode node l.k)
    (inR : InNode node r.k) : btreeNodeIterCmp node l r = .gt ↔ setRank node r < setRank node l := by
  rw [btreeNodeIterCmp,bkeyIterCmp_eq_compare valid inL inR,Nat.compare_eq_gt]
  rfl

theorem sorted_iff_rank {sets : List BtreeNodeIterSet} (valid : NodeValid node) (inNode : SetsInNode node sets) :
    sets.IsChain (fun l r => btreeNodeIterCmp node l r ≠ .gt) ↔ sets.IsChain (fun l r => setRank node l ≤ setRank node r) := by
  constructor
  · refine isChain_imp_of_mem fun l memL r memR notGt => ?_
    rw [Ne,btreeNodeIterCmp_gt_iff valid (inNode l memL) (inNode r memR)] at notGt
    omega
  · refine isChain_imp_of_mem fun l memL r memR le => ?_
    rw [Ne,btreeNodeIterCmp_gt_iff valid (inNode l memL) (inNode r memR)]
    omega

theorem sortTwo_zero (node : BtreeNode) (x y z : BtreeNodeIterSet) :
    btreeNodeIterSortTwo node ⟨x,y,z⟩ 0 =
      if btreeNodeIterCmp node x y = .gt then (true,⟨y,x,z⟩) else (false,⟨x,y,z⟩) := rfl

theorem sortTwo_one (node : BtreeNode) (x y z : BtreeNodeIterSet) :
    btreeNodeIterSortTwo node ⟨x,y,z⟩ 1 =
      if btreeNodeIterCmp node y z = .gt then (true,⟨x,z,y⟩) else (false,⟨x,y,z⟩) := rfl

theorem sort_iterOfList (valid : NodeValid node) {sets : List BtreeNodeIterSet} (live : AllLive sets)
    (inNode : SetsInNode node sets) (short : sets.length ≤ MAX_BSETS) :
    ∃ sorted, bch2BtreeNodeIterSort node (iterOfList sets) = iterOfList sorted ∧ sorted.Perm sets ∧
      sorted.Pairwise (fun l r => setRank node l ≤ setRank node r) := by
  unfold MAX_BSETS at short
  have gt : ∀ l ∈ sets, ∀ r ∈ sets, btreeNodeIterCmp node l r = .gt ↔ setRank node r < setRank node l :=
    fun l memL r memR => btreeNodeIterCmp_gt_iff valid (inNode l memL) (inNode r memR)
  match sets, live, gt with
  | [], _, _ => exact ⟨[],rfl,List.Perm.refl _,List.Pairwise.nil⟩
  | [a], _, _ => exact ⟨[a],rfl,List.Perm.refl _,List.pairwise_singleton _ _⟩
  | [a,b], live, gt =>
    have gtAB := gt a (by simp) b (by simp)
    simp only [bch2BtreeNodeIterSort,btreeNodeIterSortTwo,iterOfList,zero_atEnd,live b (by simp),Bool.not_true,
      Bool.not_false,if_true,Bool.false_eq_true,if_false]
    by_cases order : btreeNodeIterCmp node a b = .gt
    · rw [if_pos order]
      have below := gtAB.mp order
      exact ⟨[b,a],rfl,List.Perm.swap _ _ _,by simp; omega⟩
    · rw [if_neg order]
      have notBelow := mt gtAB.mpr order
      exact ⟨[a,b],rfl,List.Perm.refl _,by simp; omega⟩
  | [a,b,c], live, gt =>
    have gtAB := gt a (by simp) b (by simp)
    have gtBA := gt b (by simp) a (by simp)
    have gtAC := gt a (by simp) c (by simp)
    have gtCA := gt c (by simp) a (by simp)
    have gtBC := gt b (by simp) c (by simp)
    have liveA := live a (by simp)
    have liveB := live b (by simp)
    have liveC := live c (by simp)
    simp only [bch2BtreeNodeIterSort,iterOfList,liveC,Bool.not_false,if_true,sortTwo_zero]
    -- the bubble sort: slots 0 and 1, then 1 and 2, then 0 and 1 again
    by_cases first : btreeNodeIterCmp node a b = .gt
    · have ba := gtAB.mp first
      simp only [first,if_true,sortTwo_one]
      by_cases second : btreeNodeIterCmp node a c = .gt
      · have ca := gtAC.mp second
        simp only [second,if_true,liveC,Bool.not_false,sortTwo_zero]
        by_cases third : btreeNodeIterCmp node b c = .gt
        · have cb := gtBC.mp third
          simp only [third,if_true]
          exact ⟨[c,b,a],rfl,by grind,by simp; omega⟩
        · have bc := mt gtBC.mpr third
          simp only [third,if_false]
          exact ⟨[b,c,a],rfl,by grind,by simp; omega⟩
      · have ac := mt gtAC.mpr second
        simp only [second,if_false,liveA,Bool.not_false,if_true,sortTwo_zero]
        have notBA := mt gtBA.mp (by omega)
        simp only [notBA,if_false]
        exact ⟨[b,a,c],rfl,List.Perm.swap _ _ _,by simp; omega⟩
    · have ab := mt gtAB.mpr first
      simp only [first,if_false,sortTwo_one]
      by_cases second : btreeNodeIterCmp node b c = .gt
      · have cb := gtBC.mp second
        simp only [second,if_true,liveC,Bool.not_false,sortTwo_zero]
        by_cases third : btreeNodeIterCmp node a c = .gt
        · have ca := gtAC.mp third
          simp only [third,if_true]
          exact ⟨[c,a,b],rfl,by grind,by simp; omega⟩
        · have ac := mt gtAC.mpr third
          simp only [third,if_false]
          exact ⟨[a,c,b],rfl,by grind,by simp; omega⟩
      · have bc := mt gtBC.mpr second
        simp only [second,if_false,liveB,Bool.not_false,if_true,sortTwo_zero,first]
        exact ⟨[a,b,c],rfl,List.Perm.refl _,by simp; omega⟩

-- The first set once stepped past its key.
def advancedSet (node : BtreeNode) (iter : BtreeNodeIter) : BtreeNodeIterSet :=
  {iter.data0 with k := bkeyPNext node iter.data0.k}

theorem live_tail_of_running {iter : BtreeNodeIter} (running : iter.data0.atEnd = false) :
    iter.live = iter.data0 :: iter.live.tail := by
  simp [BtreeNodeIter.live,BtreeNodeIter.slots,running]

theorem advance_eq (node : BtreeNode) (d0 d1 d2 : BtreeNodeIterSet) :
    rawBch2BtreeNodeIterAdvance node ⟨d0,d1,d2⟩ =
      let a := advancedSet node ⟨d0,d1,d2⟩
      if a.atEnd then ⟨d1,d2,⟨0,0⟩⟩
      else if d1.atEnd then ⟨a,d1,d2⟩
      else if btreeNodeIterCmp node a d1 = .gt then
        if d2.atEnd then ⟨d1,a,d2⟩ else if btreeNodeIterCmp node a d2 = .gt then ⟨d1,d2,a⟩ else ⟨d1,a,d2⟩
      else ⟨a,d1,d2⟩ := by
  unfold rawBch2BtreeNodeIterAdvance advancedSet
  dsimp only
  rw [sortTwo_zero]
  by_cases first : btreeNodeIterCmp node {d0 with k := bkeyPNext node d0.k} d1 = .gt
  · simp only [first,if_true,Bool.not_true,Bool.false_eq_true,if_false,sortTwo_one]
    split_ifs <;> rfl
  · simp only [first,if_false,Bool.not_false,if_true]

-- __bch2_btree_node_iter_advance drops the first set if it ended, and otherwise
-- moves it back to its place among the other live sets: one step of an
-- insertion sort, which is all the partial bubble sort has to do.
theorem advance_shape (valid : NodeValid node) {iter : BtreeNodeIter} (running : iter.data0.atEnd = false)
    (ended : iter.data1.atEnd → iter.data2.atEnd)
    (inNode : (advancedSet node iter).atEnd = false → SetsInNode node (advancedSet node iter :: iter.live.tail)) :
    let next := rawBch2BtreeNodeIterAdvance node iter
    ((next.data0.atEnd → next.data1.atEnd) ∧ (next.data1.atEnd → next.data2.atEnd)) ∧
      next.live = if (advancedSet node iter).atEnd then iter.live.tail
        else iter.live.tail.orderedInsert (fun l r => setRank node l ≤ setRank node r) (advancedSet node iter) := by
  obtain ⟨d0,d1,d2⟩ := iter
  have tail : (BtreeNodeIter.live ⟨d0,d1,d2⟩).tail = [d1,d2].takeWhile fun s => !s.atEnd := by
    simp [BtreeNodeIter.live,BtreeNodeIter.slots,running]
  simp only [tail] at inNode ⊢
  rw [advance_eq]
  generalize advancedSet node ⟨d0,d1,d2⟩ = a at inNode ⊢
  dsimp only at ended ⊢
  by_cases endA : a.atEnd
  · -- the first set ended: the others move up
    simp only [endA,if_true]
    refine ⟨⟨ended,fun _ => zero_atEnd⟩,?_⟩
    cases e1 : d1.atEnd <;> cases e2 : d2.atEnd <;>
      simp [BtreeNodeIter.live,BtreeNodeIter.slots,e1,e2,zero_atEnd]
  · have liveA : a.atEnd = false := by simpa using endA
    have inA := inNode liveA
    simp only [endA,if_false,Bool.false_eq_true]
    by_cases e1 : d1.atEnd
    · -- the only live set stays first
      simp only [e1,if_true]
      refine ⟨⟨fun stop => absurd stop endA,fun _ => ended e1⟩,?_⟩
      simp [BtreeNodeIter.live,BtreeNodeIter.slots,liveA,e1]
    · have live1 : d1.atEnd = false := by simpa using e1
      have gt1 := btreeNodeIterCmp_gt_iff valid (inA a (by simp)) (inA d1 (by simp [live1]))
      simp only [e1,if_false,Bool.false_eq_true]
      by_cases c1 : btreeNodeIterCmp node a d1 = .gt
      · have below1 := gt1.mp c1
        simp only [c1,if_true]
        by_cases e2 : d2.atEnd
        · simp only [e2,if_true]
          refine ⟨⟨fun stop => absurd stop e1,fun stop => absurd stop endA⟩,?_⟩
          simp [BtreeNodeIter.live,BtreeNodeIter.slots,liveA,live1,e2,List.orderedInsert_cons,Nat.not_le.mpr below1]
        · have live2 : d2.atEnd = false := by simpa using e2
          have gt2 := btreeNodeIterCmp_gt_iff valid (inA a (by simp)) (inA d2 (by simp [live1,live2]))
          simp only [e2,if_false,Bool.false_eq_true]
          by_cases c2 : btreeNodeIterCmp node a d2 = .gt
          · have below2 := gt2.mp c2
            simp only [c2,if_true]
            refine ⟨⟨fun stop => absurd stop e1,fun stop => absurd stop e2⟩,?_⟩
            simp [BtreeNodeIter.live,BtreeNodeIter.slots,liveA,live1,live2,List.orderedInsert_cons,
              Nat.not_le.mpr below1,Nat.not_le.mpr below2]
          · have above2 := mt gt2.mpr c2
            simp only [c2,if_false]
            refine ⟨⟨fun stop => absurd stop e1,fun stop => absurd stop endA⟩,?_⟩
            simp [BtreeNodeIter.live,BtreeNodeIter.slots,liveA,live1,live2,List.orderedInsert_cons,
              Nat.not_le.mpr below1,Nat.not_lt.mp above2]
      · have above1 := mt gt1.mpr c1
        simp only [c1,if_false]
        refine ⟨⟨fun stop => absurd stop endA,fun stop => absurd stop e1⟩,?_⟩
        cases e2 : d2.atEnd <;>
          simp [BtreeNodeIter.live,BtreeNodeIter.slots,liveA,live1,e2,List.orderedInsert_cons,Nat.not_lt.mp above1]

end Sorting

section Runs

variable {node : BtreeNode}

theorem live_in_bset (valid : NodeValid node) {iter : BtreeNodeIter} (iv : IterValid node iter)
    {s : BtreeNodeIterSet} (member : s ∈ iter.live) :
    ∃ t ∈ node.set, s.stop = t.endOffset ∧ s.k ∈ bsetKeys node t ∧ s.k < s.stop ∧ LandsOn node s.k s.stop ∧
      keysOf node s ⊆ bsetKeys node t := by
  obtain ⟨t,tMem,stopEq,kMem⟩ := iv.inSets s member
  obtain ⟨_,below,lands⟩ := mem_bsetKeysFrom (valid.lands t tMem) kMem
  rw [keysOf,stopEq]
  exact ⟨t,tMem,rfl,kMem,below,lands,(bsetKeysFrom_suffix (valid.lands t tMem) kMem).subset⟩

theorem live_inNode (valid : NodeValid node) {iter : BtreeNodeIter} (iv : IterValid node iter) :
    SetsInNode node iter.live := by
  intro s member
  obtain ⟨t,tMem,_,kMem,_⟩ := live_in_bset valid iv member
  exact ⟨t,tMem,kMem⟩

theorem bsetKeys_sorted (valid : NodeValid node) (sorted : BsetsSorted node) {t : BsetTree} (tMem : t ∈ node.set) :
    (bsetKeys node t).Pairwise (fun l r => iterRank node l ≤ iterRank node r) := by
  refine pairwise_of_isChain (isChain_imp_of_mem (fun l memL r memR notGt => ?_) (sorted t tMem))
  rw [Ne,bkeyIterCmp_eq_compare valid ⟨t,tMem,memL⟩ ⟨t,tMem,memR⟩,Nat.compare_eq_gt] at notGt
  omega

theorem keysOf_sorted (valid : NodeValid node) (sorted : BsetsSorted node) {iter : BtreeNodeIter}
    (iv : IterValid node iter) {s : BtreeNodeIterSet} (member : s ∈ iter.live) :
    (keysOf node s).Pairwise (fun l r => iterRank node l ≤ iterRank node r) := by
  obtain ⟨t,tMem,stopEq,kMem,-,-,-⟩ := live_in_bset valid iv member
  rw [keysOf,stopEq]
  exact (bsetKeys_sorted valid sorted tMem).sublist (bsetKeysFrom_suffix (valid.lands t tMem) kMem).sublist

theorem live_sorted (valid : NodeValid node) {iter : BtreeNodeIter} (iv : IterValid node iter) :
    iter.live.Pairwise (fun l r => setRank node l ≤ setRank node r) :=
  pairwise_of_isChain ((sorted_iff_rank valid (live_inNode valid iv)).mp iv.sorted)

theorem isChain_of_rank (valid : NodeValid node) {sets : List BtreeNodeIterSet} (inNode : SetsInNode node sets)
    (sorted : sets.Pairwise (fun l r => setRank node l ≤ setRank node r)) :
    sets.IsChain fun l r => btreeNodeIterCmp node l r ≠ .gt :=
  (sorted_iff_rank valid inNode).mpr sorted.isChain

theorem advance_valid (valid : NodeValid node) {iter : BtreeNodeIter} (iv : IterValid node iter)
    (running : iter.data0.atEnd = false) :
    IterValid node (rawBch2BtreeNodeIterAdvance node iter) ∧
      (rawBch2BtreeNodeIterAdvance node iter).live.Perm
        (if (advancedSet node iter).atEnd then iter.live.tail else advancedSet node iter :: iter.live.tail) := by
  have split := live_tail_of_running running
  have firstMem : iter.data0 ∈ iter.live := by rw [split]; exact List.mem_cons_self
  have restMem : ∀ s ∈ iter.live.tail, s ∈ iter.live := fun s member => by rw [split]; exact List.mem_cons_of_mem _ member
  obtain ⟨t,tMem,stopEq,_,below,lands,within⟩ := live_in_bset valid iv firstMem
  obtain ⟨keysEq,landsNext⟩ := bsetKeysFrom_of_lt lands below
  -- short of its end, the stepped set is the bset's next key
  have advancedIn : (advancedSet node iter).atEnd = false → (advancedSet node iter).k ∈ bsetKeys node t := by
    intro live
    have short : bkeyPNext node iter.data0.k < iter.data0.stop := by
      have reach := landsNext.le
      have differ := atEnd_eq_false.mp live
      simp only [advancedSet] at differ
      omega
    apply within
    rw [keysOf,keysEq,(bsetKeysFrom_of_lt landsNext short).1]
    exact List.mem_cons_of_mem _ List.mem_cons_self
  have setsIn : (advancedSet node iter).atEnd = false → SetsInNode node (advancedSet node iter :: iter.live.tail) := by
    intro live s member
    rcases List.mem_cons.mp member with rfl | rest
    · exact ⟨t,tMem,advancedIn live⟩
    · exact live_inNode valid iv s (restMem s rest)
  obtain ⟨ended',live'⟩ := advance_shape valid running iv.ended.2 setsIn
  have restSorted : iter.live.tail.Pairwise (fun l r => setRank node l ≤ setRank node r) := by
    have whole := live_sorted valid iv
    rw [split] at whole
    exact whole.of_cons
  have restEnds : (iter.live.tail.map (·.stop)).Nodup := by
    have whole := iv.ends
    rw [split,List.map_cons] at whole
    exact whole.of_cons
  have perm : (rawBch2BtreeNodeIterAdvance node iter).live.Perm
      (if (advancedSet node iter).atEnd then iter.live.tail else advancedSet node iter :: iter.live.tail) := by
    rw [live']
    split
    · exact List.Perm.refl _
    · exact List.perm_orderedInsert _ _ _
  refine ⟨⟨ended',?_,?_,?_⟩,perm⟩
  · -- each set is still a key of its bset
    intro s member
    have inTarget := perm.subset member
    split at inTarget
    · exact iv.inSets s (restMem s inTarget)
    · rename_i stepped
      rcases List.mem_cons.mp inTarget with rfl | rest
      · exact ⟨t,tMem,stopEq,advancedIn (by simpa using stepped)⟩
      · exact iv.inSets s (restMem s rest)
  · -- no two sets for one bset: the stepped set keeps the first set's end
    refine (perm.map (·.stop)).nodup_iff.mpr ?_
    split
    · exact restEnds
    · have whole := iv.ends
      rw [split,List.map_cons] at whole
      simpa [advancedSet] using whole
  · rw [live']
    split
    · exact isChain_of_rank valid (fun s member => live_inNode valid iv s (restMem s member)) restSorted
    · rename_i stepped
      exact isChain_of_rank valid (fun s member => setsIn (by simpa using stepped) s
          ((List.perm_orderedInsert _ _ _).subset member))
        (pairwise_orderedInsert _ restSorted)

theorem iterKeys_advance (valid : NodeValid node) {iter : BtreeNodeIter} (iv : IterValid node iter)
    (running : iter.data0.atEnd = false) :
    iterKeys node iter = iter.data0.k :: (keysOf node (advancedSet node iter) ++ (iter.live.tail.map (keysOf node)).flatten) ∧
      (iterKeys node (rawBch2BtreeNodeIterAdvance node iter)).Perm
        (keysOf node (advancedSet node iter) ++ (iter.live.tail.map (keysOf node)).flatten) := by
  have split := live_tail_of_running running
  obtain ⟨_,_,_,_,below,lands,_⟩ := live_in_bset valid iv (s := iter.data0) (by rw [split]; exact List.mem_cons_self)
  refine ⟨?_,?_⟩
  · rw [iterKeys,split,List.map_cons,List.flatten_cons,keysOf,(bsetKeysFrom_of_lt lands below).1]
    rfl
  · refine ((advance_valid valid iv running).2.map (keysOf node)).flatten.trans ?_
    split
    · -- a set at its end has nothing left
      rename_i stepped
      rw [keysOf,atEnd_eq_true.mp stepped,bsetKeysFrom_self,List.nil_append]
    · rw [List.map_cons,List.flatten_cons]

theorem advance_least (valid : NodeValid node) (sorted : BsetsSorted node) {iter : BtreeNodeIter}
    (iv : IterValid node iter) (running : iter.data0.atEnd = false) :
    ∀ y ∈ iterKeys node (rawBch2BtreeNodeIterAdvance node iter), iterRank node iter.data0.k ≤ iterRank node y := by
  have split := live_tail_of_running running
  have firstMem : iter.data0 ∈ iter.live := by rw [split]; exact List.mem_cons_self
  have restMem : ∀ s ∈ iter.live.tail, s ∈ iter.live := fun s member => by rw [split]; exact List.mem_cons_of_mem _ member
  obtain ⟨keysEq,perm⟩ := iterKeys_advance valid iv running
  have first : (iter.data0.k :: keysOf node (advancedSet node iter)).Pairwise
      (fun l r => iterRank node l ≤ iterRank node r) := by
    have own := keysOf_sorted valid sorted iv firstMem
    obtain ⟨_,_,_,_,below,lands,_⟩ := live_in_bset valid iv firstMem
    rwa [keysOf,(bsetKeysFrom_of_lt lands below).1] at own
  -- every other set starts at or after the first, and is sorted from there
  have heads : ∀ run ∈ iter.live.tail.map (keysOf node), ∀ y ∈ run.head?, iterRank node iter.data0.k ≤ iterRank node y := by
    intro run runMem y head
    obtain ⟨s,sMem,rfl⟩ := List.mem_map.mp runMem
    obtain ⟨_,_,_,_,below,lands,_⟩ := live_in_bset valid iv (restMem s sMem)
    rw [keysOf,(bsetKeysFrom_of_lt lands below).1,List.head?_cons,Option.mem_some_iff] at head
    subst head
    have ordered := live_sorted valid iv
    rw [split] at ordered
    exact List.rel_of_pairwise_cons ordered sMem
  have runsSorted : ∀ run ∈ iter.live.tail.map (keysOf node), run.Pairwise (fun l r => iterRank node l ≤ iterRank node r) := by
    intro run runMem
    obtain ⟨s,sMem,rfl⟩ := List.mem_map.mp runMem
    exact keysOf_sorted valid sorted iv (restMem s sMem)
  intro y member
  exact head_le_of_runs first runsSorted heads y (by rw [List.flatten_cons]; exact perm.subset member)

theorem iter_leastFirst (valid : NodeValid node) (sorted : BsetsSorted node) :
    LeastFirst (iterRank node) (btreeNodeIterNext node) (iterKeys node) (IterValid node) where
  stops := by
    intro iter _ none
    have ended : bch2BtreeNodeIterEnd iter = true := by
      unfold btreeNodeIterNext bch2BtreeNodeIterPeekAll at none
      by_contra running
      simp [running] at none
    simp [iterKeys,BtreeNodeIter.live,BtreeNodeIter.slots,show iter.data0.atEnd = true from ended]
  step := by
    intro iter x next iv stepped
    have running : iter.data0.atEnd = false := by
      unfold btreeNodeIterNext bch2BtreeNodeIterPeekAll bch2BtreeNodeIterEnd at stepped
      by_contra ended
      simp [ended] at stepped
    have handed : x = iter.data0.k ∧ next = rawBch2BtreeNodeIterAdvance node iter := by
      unfold btreeNodeIterNext bch2BtreeNodeIterPeekAll bch2BtreeNodeIterEnd at stepped
      simp only [running,Bool.false_eq_true,if_false,Option.map_some,Option.some.injEq,Prod.mk.injEq] at stepped
      exact ⟨stepped.1.symm,stepped.2.symm⟩
    obtain ⟨rfl,rfl⟩ := handed
    obtain ⟨keysEq,perm⟩ := iterKeys_advance valid iv running
    refine ⟨(advance_valid valid iv running).1,?_,advance_least valid sorted iv running⟩
    rw [keysEq]
    exact (perm.symm).cons _

theorem iterKeys_inNode (valid : NodeValid node) {iter : BtreeNodeIter} (iv : IterValid node iter) :
    ∀ k ∈ iterKeys node iter, InNode node k := by
  intro k member
  obtain ⟨run,runMem,kMem⟩ := List.mem_flatten.mp member
  obtain ⟨s,sMem,rfl⟩ := List.mem_map.mp runMem
  obtain ⟨t,tMem,_,_,_,_,within⟩ := live_in_bset valid iv sMem
  exact ⟨t,tMem,within kMem⟩

-- Each key is left once: within a set the offsets increase, and the sets
-- belong to different bsets.
theorem iterKeys_nodup (valid : NodeValid node) {iter : BtreeNodeIter} (iv : IterValid node iter) :
    (iterKeys node iter).Nodup := by
  rw [iterKeys,List.nodup_flatten,List.pairwise_map]
  refine ⟨?_,?_⟩
  · intro run runMem
    obtain ⟨s,sMem,rfl⟩ := List.mem_map.mp runMem
    obtain ⟨_,_,_,_,_,lands,_⟩ := live_in_bset valid iv sMem
    exact (bsetKeysFrom_increasing lands).imp Nat.ne_of_lt
  · refine (List.pairwise_map.mp iv.ends).imp_of_mem fun aMem bMem apart => ?_
    obtain ⟨ta,taMem,stopA,_,_,_,withinA⟩ := live_in_bset valid iv aMem
    obtain ⟨tb,tbMem,stopB,_,_,_,withinB⟩ := live_in_bset valid iv bMem
    have disjoint := bsetKeys_disjoint valid taMem tbMem (by rw [← stopA,← stopB]; exact apart)
    exact fun _ inA inB => disjoint (withinA inA) (withinB inB)

theorem btreeNodeIterDrain_sorted (valid : NodeValid node) (sorted : BsetsSorted node) {iter : BtreeNodeIter}
    (iv : IterValid node iter) {fuel : Nat} (enough : (iterKeys node iter).length ≤ fuel) :
    (btreeNodeIterDrain node fuel iter).Pairwise (fun l r => bkeyIterCmp node l r = .lt) ∧
      (btreeNodeIterDrain node fuel iter).Perm (iterKeys node iter) := by
  obtain ⟨ranked,perm⟩ := drain_sorted (iter_leastFirst valid sorted) fuel iter iv enough
  have nodup := perm.nodup_iff.mpr (iterKeys_nodup valid iv)
  have inNode : ∀ k ∈ btreeNodeIterDrain node fuel iter, InNode node k :=
    fun k member => iterKeys_inNode valid iv k (perm.subset member)
  refine ⟨(ranked.and nodup).imp_of_mem fun lMem rMem ordered => ?_,perm⟩
  rw [bkeyIterCmp_eq_compare valid (inNode _ lMem) (inNode _ rMem),Nat.compare_eq_lt]
  exact lt_of_le_of_ne ordered.1 fun same => ordered.2 (iterRank_inj valid (inNode _ lMem) (inNode _ rMem) same)

end Runs

section Init

variable {node : BtreeNode}

-- The sets an init fills in from a key picked in each bset: those short of
-- their bset's end, in bset order.
def candidateSets (cands : List (BsetTree × Nat)) : List BtreeNodeIterSet :=
  (cands.filter fun tk => tk.2 ≠ tk.1.endOffset).map fun tk => ⟨tk.2,tk.1.endOffset⟩

-- Keys picked one per bset, each a key of its bset or its end.
structure Candidates (node : BtreeNode) (cands : List (BsetTree × Nat)) : Prop where
  inSets : ∀ tk ∈ cands, tk.1 ∈ node.set ∧ (tk.2 = tk.1.endOffset ∨ tk.2 ∈ bsetKeys node tk.1)
  ends : (cands.map (·.1.endOffset)).Nodup
  short : cands.length ≤ MAX_BSETS

theorem candidateSets_cons (tk : BsetTree × Nat) (rest : List (BsetTree × Nat)) :
    candidateSets (tk :: rest) =
      if tk.2 ≠ tk.1.endOffset then ⟨tk.2,tk.1.endOffset⟩ :: candidateSets rest else candidateSets rest := by
  unfold candidateSets
  by_cases atEnd : tk.2 = tk.1.endOffset <;> simp [atEnd]

theorem allLive_append {sets : List BtreeNodeIterSet} (live : AllLive sets) {k stop : Nat} (nonempty : k ≠ stop) :
    AllLive (sets ++ [⟨k,stop⟩]) := by
  intro s member
  rcases List.mem_append.mp member with old | new
  · exact live s old
  · rw [List.mem_singleton.mp new]
    exact atEnd_eq_false.mpr nonempty

theorem foldl_push (ts : List BsetTree) : ∀ sets, AllLive sets → sets.length + ts.length ≤ MAX_BSETS →
    ts.foldl (fun iter t => rawBch2BtreeNodeIterPush iter (btreeBkeyFirstOffset t) t.endOffset) (iterOfList sets) =
      iterOfList (sets ++ candidateSets (ts.map fun t => (t,btreeBkeyFirstOffset t))) := by
  induction ts with
  | nil => intro sets _ _; simp [candidateSets]
  | cons t rest ih =>
    intro sets live room
    rw [List.length_cons] at room
    rw [List.foldl_cons,List.map_cons,candidateSets_cons]
    by_cases empty : btreeBkeyFirstOffset t = t.endOffset
    · have unchanged : rawBch2BtreeNodeIterPush (iterOfList sets) (btreeBkeyFirstOffset t) t.endOffset =
          iterOfList sets := by simp [rawBch2BtreeNodeIterPush,empty]
      rw [unchanged,ih sets live (by omega)]
      simp [empty]
    · rw [push_iterOfList live (by omega) empty,ih _ (allLive_append live empty) (by simp; omega)]
      simp [empty]

theorem foldl_fill (pairs : List (BsetTree × Nat)) : ∀ sets, AllLive sets → sets.length + pairs.length ≤ MAX_BSETS →
    (pairs.foldl (fun (acc : BtreeNodeIter × Nat) (tk : BsetTree × Nat) =>
      if tk.2 ≠ tk.1.endOffset then (acc.1.setSlot acc.2 ⟨tk.2,tk.1.endOffset⟩,acc.2 + 1) else acc)
      (iterOfList sets,sets.length)).1 = iterOfList (sets ++ candidateSets pairs) := by
  induction pairs with
  | nil => intro sets _ _; simp [candidateSets]
  | cons tk rest ih =>
    intro sets live room
    rw [List.length_cons] at room
    rw [List.foldl_cons,candidateSets_cons]
    by_cases empty : tk.2 = tk.1.endOffset
    · simp only [empty,ne_eq,not_true_eq_false,if_false]
      exact ih sets live (by omega)
    · simp only [empty,ne_eq,not_false_eq_true,if_true]
      have longer : sets.length + 1 = (sets ++ [(⟨tk.2,tk.1.endOffset⟩ : BtreeNodeIterSet)]).length := by simp
      rw [setSlot_iterOfList (by omega),longer,ih _ (allLive_append live empty) (by simp; omega)]
      simp

theorem keysOf_candidateSets (cands : List (BsetTree × Nat)) :
    ((candidateSets cands).map (keysOf node)).flatten =
      (cands.map fun tk => bsetKeysFrom node tk.2 tk.1.endOffset).flatten := by
  induction cands with
  | nil => rfl
  | cons tk rest ih =>
    rw [candidateSets_cons]
    by_cases empty : tk.2 = tk.1.endOffset
    · -- a candidate at its bset's end has no keys left
      simp [empty,ih,bsetKeysFrom_self]
    · simp [empty,ih,keysOf]

theorem init_valid (valid : NodeValid node) {cands : List (BsetTree × Nat)} (picked : Candidates node cands) :
    IterValid node (bch2BtreeNodeIterSort node (iterOfList (candidateSets cands))) ∧
      (iterKeys node (bch2BtreeNodeIterSort node (iterOfList (candidateSets cands)))).Perm
        ((cands.map fun tk => bsetKeysFrom node tk.2 tk.1.endOffset).flatten) := by
  have live : AllLive (candidateSets cands) := by
    intro s member
    obtain ⟨tk,tkMem,rfl⟩ := List.mem_map.mp member
    exact atEnd_eq_false.mpr (by simpa using (List.mem_filter.mp tkMem).2)
  have short : (candidateSets cands).length ≤ MAX_BSETS :=
    le_trans (by simpa [candidateSets] using List.length_filter_le _ _) picked.short
  have inSets : ∀ s ∈ candidateSets cands, ∃ t ∈ node.set, s.stop = t.endOffset ∧ s.k ∈ bsetKeys node t := by
    intro s member
    obtain ⟨tk,tkMem,rfl⟩ := List.mem_map.mp member
    obtain ⟨kept,nonempty⟩ := List.mem_filter.mp tkMem
    obtain ⟨tMem,found⟩ := picked.inSets tk kept
    exact ⟨tk.1,tMem,rfl,found.resolve_left (by simpa using nonempty)⟩
  have inNode : SetsInNode node (candidateSets cands) := by
    intro s member
    obtain ⟨t,tMem,_,kMem⟩ := inSets s member
    exact ⟨t,tMem,kMem⟩
  obtain ⟨sorted,sortEq,perm,ordered⟩ := sort_iterOfList valid live inNode short
  obtain ⟨liveEq,ended⟩ := live_iterOfList (fun s member => live s (perm.subset member)) (perm.length_eq ▸ short)
  rw [sortEq]
  refine ⟨⟨ended,?_,?_,?_⟩,?_⟩
  · rw [liveEq]
    exact fun s member => inSets s (perm.subset member)
  · rw [liveEq]
    refine (perm.map (·.stop)).nodup_iff.mpr ?_
    have kept : ((cands.filter fun tk => tk.2 ≠ tk.1.endOffset).map (·.1.endOffset)).Sublist
        (cands.map (·.1.endOffset)) := List.filter_sublist.map _
    simpa [candidateSets,Function.comp_def] using picked.ends.sublist kept
  · rw [liveEq]
    exact isChain_of_rank valid (fun s member => inNode s (perm.subset member)) ordered
  · -- a candidate at its bset's end has no keys left
    rw [iterKeys,liveEq,← keysOf_candidateSets]
    exact (perm.map (keysOf node)).flatten

theorem fromStart_candidates (valid : NodeValid node) :
    Candidates node (node.set.map fun t => (t,btreeBkeyFirstOffset t)) where
  inSets := by
    intro tk member
    obtain ⟨t,tMem,rfl⟩ := List.mem_map.mp member
    refine ⟨tMem,?_⟩
    have lands := valid.lands t tMem
    rcases Nat.lt_or_ge (btreeBkeyFirstOffset t) t.endOffset with short | reach
    · right
      rw [bsetKeys,(bsetKeysFrom_of_lt lands short).1]
      exact List.mem_cons_self
    · left
      have := lands.le
      dsimp only
      omega
  ends := by simpa [List.map_map,Function.comp_def] using bset_ends_nodup valid
  short := by simpa using valid.nsets

-- What bch2_bset_search_linear leaves in each bset: one of its keys, or its end.
def FoundInSets (node : BtreeNode) (found : List Nat) : Prop :=
  List.Forall₂ (fun t k => k = t.endOffset ∨ k ∈ bsetKeys node t) node.set found

theorem found_candidates (valid : NodeValid node) {found : List Nat} (inSets : FoundInSets node found) :
    Candidates node (node.set.zip found) where
  inSets := by
    intro tk member
    obtain ⟨_,related⟩ := List.forall₂_iff_zip.mp inSets
    exact ⟨(List.of_mem_zip member).1,related member⟩
  ends := by
    have lengths := (List.forall₂_iff_zip.mp inSets).1
    have firsts : (node.set.zip found).map Prod.fst = node.set := List.map_fst_zip (by omega)
    have ends := bset_ends_nodup valid
    rw [← firsts,List.map_map] at ends
    exact ends
  short := by
    have within := valid.nsets
    simp only [List.length_zip]
    omega

end Init

-- From either init, peek_all and advance run to the iterator's end hand out
-- the keys left in all bsets, each once, in increasing bkey_iter_cmp order; the
-- sets start, and stay after every advance, valid: sorted by
-- btree_node_iter_cmp, one per bset.
theorem btree_node_iter_merges_bsets (node : BtreeNode) (valid : NodeValid node) (sorted : BsetsSorted node) :
    (IterValid node (bch2BtreeNodeIterInitFromStart node) ∧
      ∀ fuel, ((node.set.map (bsetKeys node)).flatten).length ≤ fuel →
        (btreeNodeIterDrain node fuel (bch2BtreeNodeIterInitFromStart node)).Pairwise
          (fun l r => bkeyIterCmp node l r = .lt) ∧
        (btreeNodeIterDrain node fuel (bch2BtreeNodeIterInitFromStart node)).Perm
          (node.set.map (bsetKeys node)).flatten) ∧
    (∀ found, FoundInSets node found →
      IterValid node (btreeNodeIterInitFound node found) ∧
      ∀ fuel, ((node.set.zip found).map fun tk => bsetKeysFrom node tk.2 tk.1.endOffset).flatten.length ≤ fuel →
        (btreeNodeIterDrain node fuel (btreeNodeIterInitFound node found)).Pairwise
          (fun l r => bkeyIterCmp node l r = .lt) ∧
        (btreeNodeIterDrain node fuel (btreeNodeIterInitFound node found)).Perm
          ((node.set.zip found).map fun tk => bsetKeysFrom node tk.2 tk.1.endOffset).flatten) ∧
    ∀ iter, IterValid node iter → bch2BtreeNodeIterEnd iter = false →
      IterValid node (bch2BtreeNodeIterAdvance node iter) := by
  have short := valid.nsets
  -- both inits fill the slots from the empty iterator and sort them
  have fromStart : bch2BtreeNodeIterInitFromStart node =
      bch2BtreeNodeIterSort node (iterOfList (candidateSets (node.set.map fun t => (t,btreeBkeyFirstOffset t)))) := by
    have filled := foldl_push node.set [] (by simp [AllLive]) (by simpa using short)
    rw [List.nil_append] at filled
    exact congrArg (bch2BtreeNodeIterSort node) filled
  have fromFound : ∀ found, btreeNodeIterInitFound node found =
      bch2BtreeNodeIterSort node (iterOfList (candidateSets (node.set.zip found))) := by
    intro found
    have filled := foldl_fill (node.set.zip found) [] (by simp [AllLive])
      (by simp only [List.length_nil,List.length_zip,Nat.zero_add]; omega)
    rw [List.nil_append] at filled
    exact congrArg (bch2BtreeNodeIterSort node) filled
  -- a drained valid iterator hands out what it holds
  have drains : ∀ iter remaining, IterValid node iter ∧ (iterKeys node iter).Perm remaining →
      ∀ fuel, remaining.length ≤ fuel →
        (btreeNodeIterDrain node fuel iter).Pairwise (fun l r => bkeyIterCmp node l r = .lt) ∧
          (btreeNodeIterDrain node fuel iter).Perm remaining := by
    intro iter remaining ⟨iv,keys⟩ fuel enough
    obtain ⟨ordered,perm⟩ := btreeNodeIterDrain_sorted valid sorted iv (keys.length_eq ▸ enough)
    exact ⟨ordered,perm.trans keys⟩
  have startValid := init_valid valid (fromStart_candidates valid)
  have startKeys : ((node.set.map fun t => (t,btreeBkeyFirstOffset t)).map
      fun tk => bsetKeysFrom node tk.2 tk.1.endOffset).flatten = (node.set.map (bsetKeys node)).flatten := by
    simp only [List.map_map,Function.comp_def]
    rfl
  rw [startKeys,← fromStart] at startValid
  refine ⟨⟨startValid.1,drains _ _ startValid⟩,fun found inSets => ?_,
    fun iter iv running => (advance_valid valid iv running).1⟩
  have foundValid := init_valid valid (found_candidates valid inSets)
  rw [← fromFound] at foundValid
  exact ⟨foundValid.1,drains _ _ foundValid⟩

-- A node of two bsets of two unpacked keys each, the second bset's first key
-- between the first bset's two.
def iterTestKey (inode offset : UInt64) : BkeyPacked := ⟨BKEY_U64s,KEY_FORMAT_CURRENT,false,1,[inode,offset,0,0,0]⟩

def iterTestNode : BtreeNode where
  format := bch2BkeyFormatCurrent
  nrKeyBits := bkeyFormatKeyBits bch2BkeyFormatCurrent
  keyAt k := if k = 3 then iterTestKey 1 10 else if k = 8 then iterTestKey 1 30
    else if k = 16 then iterTestKey 1 20 else iterTestKey 2 0
  set := [⟨0,13⟩,⟨13,26⟩]

theorem iterTestNode_keys : bsetKeys iterTestNode ⟨0,13⟩ = [3,8] ∧ bsetKeys iterTestNode ⟨13,26⟩ = [16,21] ∧
    bsetKeysFrom iterTestNode 8 13 = [8] ∧ bsetKeysFrom iterTestNode 26 26 = [] := by
  simp [bsetKeys,bsetKeysFrom,btreeBkeyFirstOffset,bkeyPNext,iterTestNode,iterTestKey,BKEY_U64s]

theorem iterTestNode_valid : NodeValid iterTestNode where
  formatValid := by decide
  keyBits := rfl
  nsets := by decide
  lands := by
    intro t member
    simp only [iterTestNode,List.mem_cons,List.not_mem_nil,or_false] at member
    rcases member with rfl | rfl
    · exact .step 3 13 (by decide) (.step 8 13 (by decide) (.here 13))
    · exact .step 16 26 (by decide) (.step 21 26 (by decide) (.here 26))
  inOrder := by decide
  fits := by decide
  keys := by
    intro _ _ k _
    right
    simp only [iterTestNode]
    split_ifs <;> rfl

theorem iterTestNode_sorted : BsetsSorted iterTestNode := by
  intro t member
  simp only [iterTestNode,List.mem_cons,List.not_mem_nil,or_false] at member
  rcases member with rfl | rfl
  · rw [iterTestNode_keys.1]; decide
  · rw [iterTestNode_keys.2.1]; decide

theorem iter_test_node_merges : NodeValid iterTestNode ∧ BsetsSorted iterTestNode ∧
    FoundInSets iterTestNode [8,26] ∧
    (btreeNodeIterDrain iterTestNode 4 (bch2BtreeNodeIterInitFromStart iterTestNode)).Pairwise
      (fun l r => bkeyIterCmp iterTestNode l r = .lt) ∧
    (btreeNodeIterDrain iterTestNode 4 (bch2BtreeNodeIterInitFromStart iterTestNode)).Perm
      (iterTestNode.set.map (bsetKeys iterTestNode)).flatten ∧
    (btreeNodeIterDrain iterTestNode 1 (btreeNodeIterInitFound iterTestNode [8,26])).Perm
      ((iterTestNode.set.zip [8,26]).map fun tk => bsetKeysFrom iterTestNode tk.2 tk.1.endOffset).flatten := by
  have found : FoundInSets iterTestNode [8,26] := by
    refine List.Forall₂.cons (Or.inr ?_) (List.Forall₂.cons (Or.inl rfl) List.Forall₂.nil)
    rw [iterTestNode_keys.1]; decide
  obtain ⟨⟨_,fromStart⟩,fromFound,_⟩ := btree_node_iter_merges_bsets iterTestNode iterTestNode_valid iterTestNode_sorted
  have enough : ((iterTestNode.set.map (bsetKeys iterTestNode)).flatten).length ≤ 4 := by
    have sets : iterTestNode.set = [⟨0,13⟩,⟨13,26⟩] := rfl
    rw [sets,List.map_cons,List.map_cons,List.map_nil,iterTestNode_keys.1,iterTestNode_keys.2.1]
    decide
  refine ⟨iterTestNode_valid,iterTestNode_sorted,found,(fromStart 4 enough).1,(fromStart 4 enough).2,
    ((fromFound _ found).2 1 ?_).2⟩
  · have pairs : iterTestNode.set.zip [8,26] = [(⟨0,13⟩,8),(⟨13,26⟩,26)] := rfl
    rw [pairs,List.map_cons,List.map_cons,List.map_nil]
    simp only [iterTestNode_keys.2.2]
    decide
-- peek_all and advance alternate between the bsets.
example : btreeNodeIterDrain iterTestNode 4 (bch2BtreeNodeIterInitFromStart iterTestNode) = [3,16,8,21] := by decide

end Bcachefs
