import Bcachefs.Bset.Iter
import Bcachefs.Lib.SortedRuns

namespace Bcachefs
open SortedRuns WordStream

-- struct sort_iter_set: the next key of a run and the run's end (`end` is a keyword
-- here), as offsets in the node's memory.
structure SortIterSet where
  k : Nat
  stop : Nat
  deriving DecidableEq, Repr

-- struct sort_iter: data[0, used) and room for size sets. iter->b is the node the
-- keys are read in, passed beside it.
structure SortIter where
  data : List SortIterSet
  size : Nat
  deriving DecidableEq, Repr

def sortIterInit (size : Nat) : SortIter := ⟨[],size⟩

def sortIterStackInit : SortIter := sortIterInit (MAX_BSETS + 1)

-- sort_iter_add: a run that is not empty takes the next slot. none is the BUG_ON of
-- a full iterator.
def sortIterAdd (iter : SortIter) (k stop : Nat) : Option SortIter :=
  if iter.data.length ≥ iter.size then none
  else if k ≠ stop then some ⟨iter.data ++ [⟨k,stop⟩],iter.size⟩
  else some iter

-- sort_iter_sift: from slot i on, a set whose key compares greater than the next
-- set's changes places with it.
def sortIterSift (cmp : Nat → Nat → Ordering) (data : List SortIterSet) (i : Nat) : List SortIterSet :=
  if h : i + 1 < data.length then
    if cmp data[i].k data[i + 1].k = .gt then
      sortIterSift cmp ((data.set i data[i + 1]).set (i + 1) data[i]) (i + 1)
    else data
  else data
termination_by data.length - i
decreasing_by simp only [List.length_set]; omega

-- sort_iter_sort: `while (i--)` sifts from slot used - 1 down to slot 0.
def sortIterSort (cmp : Nat → Nat → Ordering) (data : List SortIterSet) : List SortIterSet :=
  (List.range data.length).reverse.foldl (sortIterSift cmp) data

def sortIterPeek (data : List SortIterSet) : Option Nat := data.head?.map (·.k)

-- sort_iter_advance: the first set steps past its key; at its end it is removed
-- (array_remove_item), otherwise sifted back into place. none is a BUG_ON: no set,
-- or a key that runs past its set's end.
def sortIterAdvance (node : BtreeNode) (cmp : Nat → Nat → Ordering) : List SortIterSet → Option (List SortIterSet)
  | [] => none
  | i :: rest =>
    let k := bkeyPNext node i.k
    if k > i.stop then none
    else if k = i.stop then some rest
    else some (sortIterSift cmp (⟨k,i.stop⟩ :: rest) 0)

-- bch2_bkey_cmp_packed, and bch2_bkey_cmp_packed_inlined, on the keys at offsets l and r.
def bkeySortCmp (node : BtreeNode) (l r : Nat) : Ordering :=
  bch2BkeyCmpPacked node.toBtree (node.keyAt l) (node.keyAt r)

-- key_sort_fix_overlapping_cmp: position, then the keys' addresses.
def keySortFixOverlappingCmp (node : BtreeNode) (l r : Nat) : Ordering :=
  (bkeySortCmp node l r).then (cmpInt l r)

-- keep_unwritten_whiteouts_cmp: position, deleted keys first, then addresses. Its
-- (long) l - (long) r has the sign of cmp_int(l, r) for keys of one node, so it is
-- bkey_iter_cmp.
def keepUnwrittenWhiteoutsCmp (node : BtreeNode) (l r : Nat) : Ordering :=
  (bkeySortCmp node l r).then
    ((compare (bkeyDeleted (node.keyAt r)).toNat (bkeyDeleted (node.keyAt l)).toNat).then (cmpInt l r))

-- The loops below run for at most as many rounds as their sets span u64s: every
-- round steps one set past a key of at least one u64.
def sortIterSpan (data : List SortIterSet) : Nat := (data.map fun s => s.stop - s.k).sum

def keysU64s (node : BtreeNode) (keys : List Nat) : Nat := (keys.map fun k => (node.keyAt k).u64s.toNat).sum

-- The loop of bch2_sort_keys: each key sort_iter_next hands out (a peek, then an
-- advance) is copied unless it is deleted. `fuel` bounds the rounds.
def sortKeysLoop (node : BtreeNode) : Nat → List SortIterSet → Option (List Nat)
  | _,[] => some []
  | 0,_ :: _ => none
  | fuel + 1,i :: rest => do
    let data ← sortIterAdvance node (bkeySortCmp node) (i :: rest)
    let out ← sortKeysLoop node fuel data
    pure (if bkeyDeleted (node.keyAt i.k) then out else i.k :: out)

-- bch2_sort_keys: the keys copied to dst, in order, and the u64s they fill.
def bch2SortKeys (node : BtreeNode) (iter : SortIter) : Option (List Nat × Nat) := do
  let out ← sortKeysLoop node (sortIterSpan iter.data) (sortIterSort (bkeySortCmp node) iter.data)
  pure (out,keysU64s node out)

-- should_drop_next_key: the first two sets' keys are at one position.
def shouldDropNextKey (node : BtreeNode) : List SortIterSet → Bool
  | i :: j :: _ => bkeySortCmp node i.k j.k == .eq
  | _ => false

-- The loop of bch2_key_sort_fix_overlapping: the key sort_iter_peek shows is copied
-- unless it is deleted or should_drop_next_key, then the iterator advances.
def keySortFixOverlappingLoop (node : BtreeNode) : Nat → List SortIterSet → Option (List Nat)
  | _,[] => some []
  | 0,_ :: _ => none
  | fuel + 1,i :: rest => do
    let copy := !bkeyDeleted (node.keyAt i.k) && !shouldDropNextKey node (i :: rest)
    let data ← sortIterAdvance node (keySortFixOverlappingCmp node) (i :: rest)
    let out ← keySortFixOverlappingLoop node fuel data
    pure (if copy then i.k :: out else out)

-- struct btree_nr_keys.
structure BtreeNrKeys where
  liveU64s : UInt16
  bsetU64s : Vector UInt16 MAX_BSETS
  packedKeys : UInt16
  unpackedKeys : UInt16
  deriving DecidableEq, Repr

theorem MAX_BSETS_pos : 0 < MAX_BSETS := by decide

def btreeNrKeysZero : BtreeNrKeys := ⟨0,Vector.replicate MAX_BSETS 0,0,0⟩

-- btree_keys_account_key_add(n, bset, k)
def btreeKeysAccountKeyAdd (n : BtreeNrKeys) (bset : Fin MAX_BSETS) (k : BkeyPacked) : BtreeNrKeys :=
  { n with
    liveU64s := n.liveU64s + k.u64s.toUInt16
    bsetU64s := n.bsetU64s.set bset (n.bsetU64s[bset] + k.u64s.toUInt16)
    packedKeys := if bkeyPacked k then n.packedKeys + 1 else n.packedKeys
    unpackedKeys := if bkeyPacked k then n.unpackedKeys else n.unpackedKeys + 1 }

-- bch2_key_sort_fix_overlapping: the keys copied to dst, the btree_nr_keys of those
-- keys in bset 0, and dst->u64s.
def bch2KeySortFixOverlapping (node : BtreeNode) (iter : SortIter) : Option (List Nat × BtreeNrKeys × UInt16) := do
  let out ← keySortFixOverlappingLoop node (sortIterSpan iter.data)
    (sortIterSort (keySortFixOverlappingCmp node) iter.data)
  pure (out,out.foldl (fun n k => btreeKeysAccountKeyAdd n ⟨0,MAX_BSETS_pos⟩ (node.keyAt k)) btreeNrKeysZero,
    (keysU64s node out).toUInt16)

-- The loop of bch2_sort_keys_keep_unwritten_whiteouts: of each key sort_iter_next
-- hands out, a whiteout before unwritten_whiteouts_start is dropped, and so is a key
-- at the position of the key sort_iter_peek then shows.
def sortKeysKeepUnwrittenWhiteoutsLoop (node : BtreeNode) (whiteoutsStart : Nat) :
    Nat → List SortIterSet → Option (List Nat)
  | _,[] => some []
  | 0,_ :: _ => none
  | fuel + 1,i :: rest => do
    let data ← sortIterAdvance node (keepUnwrittenWhiteoutsCmp node) (i :: rest)
    let out ← sortKeysKeepUnwrittenWhiteoutsLoop node whiteoutsStart fuel data
    if bkeyDeleted (node.keyAt i.k) && decide (i.k < whiteoutsStart) then pure out
    else match sortIterPeek data with
      | some next => if bkeySortCmp node i.k next = .eq then pure out else pure (i.k :: out)
      | none => pure (i.k :: out)

-- bch2_sort_keys_keep_unwritten_whiteouts: the keys copied to dst and the u64s they fill.
def bch2SortKeysKeepUnwrittenWhiteouts (node : BtreeNode) (whiteoutsStart : Nat) (iter : SortIter) :
    Option (List Nat × Nat) := do
  let out ← sortKeysKeepUnwrittenWhiteoutsLoop node whiteoutsStart (sortIterSpan iter.data)
    (sortIterSort (keepUnwrittenWhiteoutsCmp node) iter.data)
  pure (out,keysU64s node out)

section Sift

variable {cmp : Nat → Nat → Ordering} {rank : Nat → Nat}

theorem sortIterSift_append (x : SortIterSet) :
    ∀ (Q P : List SortIterSet), (∀ b ∈ Q, cmp x.k b.k = compare (rank x.k) (rank b.k)) →
      sortIterSift cmp (P ++ x :: Q) P.length = P ++ Q.orderedInsert (fun a b => rank a.k ≤ rank b.k) x
  | [],P,_ => by
    rw [sortIterSift]
    simp only [List.length_append,List.length_cons,List.length_nil,Nat.zero_add,Nat.lt_irrefl,↓reduceDIte,
      List.orderedInsert_nil]
  | y :: R,P,cmpOk => by
    have ih := sortIterSift_append x R (P ++ [y]) (fun b member => cmpOk b (List.mem_cons_of_mem y member))
    rw [List.length_append,List.length_singleton,List.append_assoc,List.singleton_append] at ih
    rw [sortIterSift]
    simp only [List.length_append,List.length_cons,add_lt_add_iff_left,lt_add_iff_pos_left,Order.lt_add_one_iff,
      zero_le,↓reduceDIte,Std.le_refl,List.getElem_append_right,tsub_self,List.getElem_cons_zero,
      le_add_iff_nonneg_right,add_tsub_cancel_left,List.getElem_cons_succ,List.set_append_right,List.set_cons_zero,
      List.set_cons_succ,List.orderedInsert_cons]
    rw [cmpOk y List.mem_cons_self,ih]
    by_cases low : rank x.k ≤ rank y.k
    · rw [if_neg (by rw [Nat.compare_eq_gt]; omega),if_pos low]
    · rw [if_pos (Nat.compare_eq_gt.mpr (by omega)),if_neg low,List.append_assoc,List.singleton_append]

theorem sortIterSort_foldl (P : List SortIterSet) : ∀ S : List SortIterSet,
    S.Pairwise (fun a b => rank a.k ≤ rank b.k) →
    (∀ a ∈ P ++ S, ∀ b ∈ P ++ S, cmp a.k b.k = compare (rank a.k) (rank b.k)) →
    ((List.range P.length).reverse.foldl (sortIterSift cmp) (P ++ S)).Pairwise (fun a b => rank a.k ≤ rank b.k) ∧
      ((List.range P.length).reverse.foldl (sortIterSift cmp) (P ++ S)).Perm (P ++ S) := by
  induction P using List.reverseRecOn with
  | nil => exact fun S sorted _ => ⟨sorted,List.Perm.refl _⟩
  | append_singleton P x ih =>
    intro S sorted cmpOk
    have inserted : (P ++ [x] ++ S) = P ++ x :: S := by rw [List.append_assoc,List.singleton_append]
    have xMem : x ∈ P ++ [x] ++ S := by simp
    have sifted := @sortIterSift_append cmp rank x S P
      (fun b member => cmpOk x xMem b (by rw [inserted]; exact List.mem_append_right _ (List.mem_cons_of_mem x member)))
    have sameSets : (P ++ S.orderedInsert (fun a b => rank a.k ≤ rank b.k) x).Perm (P ++ [x] ++ S) := by
      rw [inserted]
      exact (List.perm_orderedInsert _ x S).append_left P
    have later := ih (S.orderedInsert (fun a b => rank a.k ≤ rank b.k) x)
      (@pairwise_orderedInsert SortIterSet Nat _ (fun a => rank a.k) x S sorted)
      (fun a aMem b bMem => cmpOk a (sameSets.subset aMem) b (sameSets.subset bMem))
    rw [List.length_append,List.length_singleton,List.range_succ,List.reverse_append,List.reverse_singleton,
      List.singleton_append,List.foldl_cons,inserted,sifted]
    exact ⟨later.1,later.2.trans (sameSets.trans (by rw [inserted]))⟩

theorem sortIterSort_spec {data : List SortIterSet}
    (cmpOk : ∀ a ∈ data, ∀ b ∈ data, cmp a.k b.k = compare (rank a.k) (rank b.k)) :
    (sortIterSort cmp data).Pairwise (fun a b => rank a.k ≤ rank b.k) ∧ (sortIterSort cmp data).Perm data := by
  have sorted := @sortIterSort_foldl cmp rank data [] List.Pairwise.nil
    (by simpa only [List.append_nil] using cmpOk)
  rw [List.append_nil] at sorted
  exact sorted

end Sift

section Sets

variable {node : BtreeNode} {R : Nat → Prop} {ordered : Nat → Nat → Prop} {rank : Nat → Nat}

-- The keys a set has yet to hand out, and the set once it steps past its first key.
def sortSetKeys (node : BtreeNode) (s : SortIterSet) : List Nat := bsetKeysFrom node s.k s.stop

def sortSetTail (node : BtreeNode) (s : SortIterSet) : Option SortIterSet :=
  if bkeyPNext node s.k = s.stop then none else some ⟨bkeyPNext node s.k,s.stop⟩

-- A set sort_iter can walk: it lands on its end and holds a key, and its keys
-- satisfy `R` and climb by `ordered`.
structure GoodSet (node : BtreeNode) (R : Nat → Prop) (ordered : Nat → Nat → Prop) (s : SortIterSet) : Prop where
  lands : LandsOn node s.k s.stop
  nonempty : s.k ≠ s.stop
  readable : ∀ k ∈ sortSetKeys node s, R k
  sorted : (sortSetKeys node s).Pairwise ordered

theorem GoodSet.keys_eq {s : SortIterSet} (good : GoodSet node R ordered s) :
    sortSetKeys node s = s.k :: ((sortSetTail node s).map (sortSetKeys node)).getD [] := by
  have short : s.k < s.stop := lt_of_le_of_ne good.lands.le good.nonempty
  have walk := (bsetKeysFrom_of_lt good.lands short).1
  unfold sortSetKeys sortSetTail
  rw [walk]
  split
  · rename_i ends
    rw [ends,bsetKeysFrom_self]
    rfl
  · rfl

theorem GoodSet.head_readable {s : SortIterSet} (good : GoodSet node R ordered s) : R s.k :=
  good.readable s.k (by rw [good.keys_eq]; exact List.mem_cons_self)

theorem GoodSet.tail {s s' : SortIterSet} (good : GoodSet node R ordered s) (tailed : sortSetTail node s = some s') :
    GoodSet node R ordered s' := by
  have short : s.k < s.stop := lt_of_le_of_ne good.lands.le good.nonempty
  obtain ⟨walk,lands⟩ := bsetKeysFrom_of_lt good.lands short
  unfold sortSetTail at tailed
  split at tailed
  · cases tailed
  · rename_i going
    cases tailed
    have keys : sortSetKeys node s = s.k :: sortSetKeys node ⟨bkeyPNext node s.k,s.stop⟩ := walk
    have sorted := good.sorted
    rw [keys] at sorted
    exact ⟨lands,going,fun k member => good.readable k (by rw [keys]; exact List.mem_cons_of_mem _ member),sorted.of_cons⟩

theorem sortSet_isRun (ordRank : ∀ a b, R a → R b → ordered a b → rank a ≤ rank b) :
    IsRun rank SortIterSet.k (sortSetTail node) (sortSetKeys node) (GoodSet node R ordered) where
  unfold _ good := good.keys_eq
  tailGood _ _ good tailed := good.tail tailed
  sorted _ good := good.sorted.imp_of_mem fun aMem bMem before =>
    ordRank _ _ (good.readable _ aMem) (good.readable _ bMem) before

end Sets

section Advance

variable {node : BtreeNode} {R : Nat → Prop} {ordered : Nat → Nat → Prop} {rank : Nat → Nat}
  {cmp : Nat → Nat → Ordering}

-- The merge a sort_iter runs, of sets ranked by their keys.
abbrev sortMergeNext (node : BtreeNode) (rank : Nat → Nat) : List SortIterSet → Option (Nat × List SortIterSet) :=
  mergeNext rank SortIterSet.k (sortSetTail node)

-- On sets in order, sort_iter_advance does what the merge does: it never trips its
-- BUG_ON, and it puts the rest of the first set back in place.
theorem sortIterAdvance_eq (cmpOk : ∀ a b, R a → R b → cmp a b = compare (rank a) (rank b)) {i : SortIterSet}
    {rest : List SortIterSet} (inv : MergeInv rank SortIterSet.k (GoodSet node R ordered) (i :: rest)) :
    ∃ runs', sortIterAdvance node cmp (i :: rest) = some runs' ∧ sortMergeNext node rank (i :: rest) = some (i.k,runs') := by
  have good := inv.1 i List.mem_cons_self
  have short : i.k < i.stop := lt_of_le_of_ne good.lands.le good.nonempty
  have within := (bsetKeysFrom_of_lt good.lands short).2.le
  unfold sortMergeNext
  rw [sortIterAdvance,mergeNext_cons,if_neg (Nat.not_lt.mpr within)]
  by_cases ends : bkeyPNext node i.k = i.stop
  · have tailed : sortSetTail node i = none := by rw [sortSetTail,if_pos ends]
    rw [if_pos ends,tailed]
    exact ⟨rest,rfl,rfl⟩
  · have tailed : sortSetTail node i = some ⟨bkeyPNext node i.k,i.stop⟩ := by rw [sortSetTail,if_neg ends]
    have nextReadable := (good.tail tailed).head_readable
    have sifted := @sortIterSift_append cmp rank ⟨bkeyPNext node i.k,i.stop⟩ rest []
      (fun b member => cmpOk _ _ nextReadable (inv.1 b (List.mem_cons_of_mem i member)).head_readable)
    simp only [List.nil_append,List.length_nil] at sifted
    rw [if_neg ends,tailed,sifted]
    exact ⟨_,rfl,rfl⟩

end Advance

section Loops

variable {node : BtreeNode} {R : Nat → Prop} {ordered : Nat → Nat → Prop} {rank : Nat → Nat}
  {cmp : Nat → Nat → Ordering}

theorem length_bsetKeysFrom_le {k stop : Nat} (lands : LandsOn node k stop) :
    (bsetKeysFrom node k stop).length ≤ stop - k := by
  induction lands with
  | here k => rw [bsetKeysFrom_self,List.length_nil]; omega
  | step k stop long rest ih =>
    have short := LandsOn.lt_next long rest
    rw [(bsetKeysFrom_of_lt (.step k stop long rest) short).1,List.length_cons]
    unfold bkeyPNext at ih ⊢
    omega

theorem length_flatMap_le_span :
    ∀ data : List SortIterSet, (∀ s ∈ data, GoodSet node R ordered s) →
      (data.flatMap (sortSetKeys node)).length ≤ sortIterSpan data
  | [],_ => Nat.le_refl 0
  | s :: data,good => by
    have first := length_bsetKeysFrom_le (good s List.mem_cons_self).lands
    have later := length_flatMap_le_span data fun s' member => good s' (List.mem_cons_of_mem s member)
    rw [List.flatMap_cons,List.length_append,sortIterSpan,List.map_cons,List.sum_cons]
    exact Nat.add_le_add first later

-- One round of any of the loops: sort_iter_advance moves to the merge's next state,
-- which keeps the invariant and holds one key fewer.
theorem sortIter_round (cmpOk : ∀ a b, R a → R b → cmp a b = compare (rank a) (rank b))
    (ordRank : ∀ a b, R a → R b → ordered a b → rank a ≤ rank b) {i : SortIterSet} {rest : List SortIterSet}
    (inv : MergeInv rank SortIterSet.k (GoodSet node R ordered) (i :: rest)) :
    ∃ runs', sortIterAdvance node cmp (i :: rest) = some runs' ∧ sortMergeNext node rank (i :: rest) = some (i.k,runs') ∧
      MergeInv rank SortIterSet.k (GoodSet node R ordered) runs' ∧
      (runs'.flatMap (sortSetKeys node)).length + 1 = ((i :: rest).flatMap (sortSetKeys node)).length := by
  obtain ⟨runs',advanced,merged⟩ := sortIterAdvance_eq cmpOk inv
  obtain ⟨runs'',merged',inv',perm⟩ := mergeNext_step (sortSet_isRun ordRank) inv
  have same : some (i.k,runs') = some (i.k,runs'') := merged.symm.trans merged'
  rw [Option.some.injEq,Prod.mk.injEq] at same
  obtain ⟨-,rfl⟩ := same
  refine ⟨runs',advanced,merged,inv',?_⟩
  rw [perm.length_eq,List.flatMap_cons,(inv.1 i List.mem_cons_self).keys_eq,List.cons_append,List.length_cons,
    List.length_append]

theorem drain_sortMerge_nil (rank : Nat → Nat) : ∀ fuel, drain (sortMergeNext node rank) fuel [] = []
  | 0 => rfl
  | _ + 1 => rfl

theorem drain_sortMerge_round {i : SortIterSet} {rest runs' : List SortIterSet} (fuel : Nat)
    (merged : sortMergeNext node rank (i :: rest) = some (i.k,runs')) :
    drain (sortMergeNext node rank) (fuel + 1) (i :: rest) = i.k :: drain (sortMergeNext node rank) fuel runs' := by
  rw [drain,merged]

theorem fuel_pos_of_cons {i : SortIterSet} {rest : List SortIterSet} {fuel : Nat}
    (inv : MergeInv rank SortIterSet.k (GoodSet node R ordered) (i :: rest))
    (short : ((i :: rest).flatMap (sortSetKeys node)).length ≤ fuel) : 0 < fuel := by
  rw [List.flatMap_cons,(inv.1 i List.mem_cons_self).keys_eq,List.cons_append,List.length_cons] at short
  omega

theorem sortKeysLoop_drain (cmpOk : ∀ a b, R a → R b → bkeySortCmp node a b = compare (rank a) (rank b))
    (ordRank : ∀ a b, R a → R b → ordered a b → rank a ≤ rank b) :
    ∀ fuel data, MergeInv rank SortIterSet.k (GoodSet node R ordered) data →
      (data.flatMap (sortSetKeys node)).length ≤ fuel →
      sortKeysLoop node fuel data =
        some ((drain (sortMergeNext node rank) fuel data).filter fun k => !bkeyDeleted (node.keyAt k))
  | fuel,[],_,_ => by rw [drain_sortMerge_nil,sortKeysLoop]; rfl
  | 0,i :: rest,inv,short => absurd (fuel_pos_of_cons inv short) (Nat.lt_irrefl 0)
  | fuel + 1,i :: rest,inv,short => by
    obtain ⟨runs',advanced,merged,inv',fewer⟩ := sortIter_round cmpOk ordRank inv
    have later := sortKeysLoop_drain cmpOk ordRank fuel runs' inv' (by omega)
    simp only [sortKeysLoop,advanced,later,Option.bind_eq_bind,Option.bind_some,Option.pure_def,
      drain_sortMerge_round fuel merged,List.filter_cons]
    cases bkeyDeleted (node.keyAt i.k) <;> rfl

theorem drain_sortMerge_head? {runs : List SortIterSet} {fuel : Nat}
    (inv : MergeInv rank SortIterSet.k (GoodSet node R ordered) runs)
    (short : (runs.flatMap (sortSetKeys node)).length ≤ fuel) :
    (drain (sortMergeNext node rank) fuel runs).head? = sortIterPeek runs := by
  cases runs with
  | nil => rw [drain_sortMerge_nil]; rfl
  | cons i rest =>
    obtain ⟨fuel,rfl⟩ : ∃ f, fuel = f + 1 := ⟨fuel - 1,by have := fuel_pos_of_cons inv short; omega⟩
    rfl

theorem sortIterSort_merge (cmpOk : ∀ a b, R a → R b → cmp a b = compare (rank a) (rank b))
    (ordRank : ∀ a b, R a → R b → ordered a b → rank a ≤ rank b) {data : List SortIterSet}
    (sets : ∀ s ∈ data, GoodSet node R ordered s) :
    MergeInv rank SortIterSet.k (GoodSet node R ordered) (sortIterSort cmp data) ∧
      ((sortIterSort cmp data).flatMap (sortSetKeys node)).length ≤ sortIterSpan data ∧
      (drain (sortMergeNext node rank) (sortIterSpan data) (sortIterSort cmp data)).Pairwise
        (fun a b => rank a ≤ rank b) ∧
      (drain (sortMergeNext node rank) (sortIterSpan data) (sortIterSort cmp data)).Perm
        (data.flatMap (sortSetKeys node)) := by
  obtain ⟨sorted,perm⟩ := @sortIterSort_spec cmp rank data
    fun a aMem b bMem => cmpOk _ _ (sets a aMem).head_readable (sets b bMem).head_readable
  have inv : MergeInv rank SortIterSet.k (GoodSet node R ordered) (sortIterSort cmp data) :=
    ⟨fun s member => sets s (perm.subset member),sorted⟩
  have span : ((sortIterSort cmp data).flatMap (sortSetKeys node)).length ≤ sortIterSpan data := by
    rw [(perm.flatMap_right _).length_eq]
    exact length_flatMap_le_span data sets
  obtain ⟨drained,drainPerm⟩ := drain_sorted (mergeNext_leastFirst (sortSet_isRun ordRank)) _ _ inv span
  exact ⟨inv,span,drained,drainPerm.trans (perm.flatMap_right _)⟩

theorem GoodSet.climbs_tail {s s' : SortIterSet} (good : GoodSet node R ordered s)
    (tailed : sortSetTail node s = some s') : ordered s.k s'.k := by
  have sorted := good.sorted
  rw [good.keys_eq,tailed,Option.map_some,Option.getD_some,(good.tail tailed).keys_eq] at sorted
  exact List.rel_of_pairwise_cons sorted List.mem_cons_self

section Lookahead

variable {key : Nat → Nat} (sameOk : ∀ a b, R a → R b → (bkeySortCmp node a b = .eq ↔ key a = key b))
  (ordRank : ∀ a b, R a → R b → ordered a b → rank a ≤ rank b)
include sameOk ordRank

theorem sortKeysKeepUnwrittenWhiteoutsLoop_drain (whiteoutsStart : Nat)
    (cmpOk : ∀ a b, R a → R b → keepUnwrittenWhiteoutsCmp node a b = compare (rank a) (rank b)) :
    ∀ fuel data, MergeInv rank SortIterSet.k (GoodSet node R ordered) data →
      (data.flatMap (sortSetKeys node)).length ≤ fuel →
      sortKeysKeepUnwrittenWhiteoutsLoop node whiteoutsStart fuel data =
        some ((dropShadowed (fun a b => key a == key b) (drain (sortMergeNext node rank) fuel data)).filter
          fun k => !(bkeyDeleted (node.keyAt k) && decide (k < whiteoutsStart)))
  | fuel,[],_,_ => by rw [drain_sortMerge_nil,sortKeysKeepUnwrittenWhiteoutsLoop]; rfl
  | 0,i :: rest,inv,short => absurd (fuel_pos_of_cons inv short) (Nat.lt_irrefl 0)
  | fuel + 1,i :: rest,inv,short => by
    obtain ⟨runs',advanced,merged,inv',fewer⟩ := sortIter_round cmpOk ordRank inv
    have later := sortKeysKeepUnwrittenWhiteoutsLoop_drain whiteoutsStart cmpOk fuel runs' inv' (by omega)
    have first := drain_sortMerge_head? inv' (show _ ≤ fuel by omega)
    simp only [sortKeysKeepUnwrittenWhiteoutsLoop,advanced,later,Option.bind_eq_bind,Option.bind_some,
      drain_sortMerge_round fuel merged,dropShadowed_cons,first]
    -- the peeked key is the head of the next first set, readable like every head
    cases peeked : sortIterPeek runs' with
    | none =>
      simp only [Option.any_none,Bool.false_eq_true,↓reduceIte,List.filter_cons]
      cases bkeyDeleted (node.keyAt i.k) && decide (i.k < whiteoutsStart) <;> rfl
    | some next =>
      obtain ⟨j,more,rfl⟩ : ∃ j more, runs' = j :: more := by
        cases runs' with
        | nil => cases peeked
        | cons j more => exact ⟨j,more,rfl⟩
      cases peeked
      have same := sameOk i.k j.k (inv.1 i List.mem_cons_self).head_readable (inv'.1 j List.mem_cons_self).head_readable
      simp only [Option.any_some,beq_iff_eq]
      by_cases atOnce : key i.k = key j.k
      · simp only [same.mpr atOnce,atOnce,↓reduceIte]
        cases bkeyDeleted (node.keyAt i.k) && decide (i.k < whiteoutsStart) <;> rfl
      · simp only [show bkeySortCmp node i.k j.k ≠ .eq from fun eq => atOnce (same.mp eq),atOnce,↓reduceIte,
          List.filter_cons]
        cases bkeyDeleted (node.keyAt i.k) && decide (i.k < whiteoutsStart) <;> rfl

omit ordRank in
-- should_drop_next_key looks only at the second set's key. Where each set climbs
-- strictly in position, that key is at the first key's position just when the key the
-- merge hands out next is.
theorem shouldDropNextKey_eq (climbs : ∀ a b, R a → R b → ordered a b → key a < key b)
    (mono : ∀ a b, R a → R b → rank a ≤ rank b → key a ≤ key b) {i : SortIterSet} {rest runs' : List SortIterSet}
    (inv : MergeInv rank SortIterSet.k (GoodSet node R ordered) (i :: rest))
    (merged : sortMergeNext node rank (i :: rest) = some (i.k,runs')) :
    shouldDropNextKey node (i :: rest) = (sortIterPeek runs').any fun next => key i.k == key next := by
  have good := inv.1 i List.mem_cons_self
  cases rest with
  | nil =>
    -- alone, the first set hands out its own next key, at a higher position
    change mergeNext rank SortIterSet.k (sortSetTail node) [i] = _ at merged
    rw [mergeNext_cons] at merged
    cases tailed : sortSetTail node i with
    | none =>
      rw [tailed,Option.some.injEq,Prod.mk.injEq] at merged
      rw [← merged.2]
      rfl
    | some r' =>
      rw [tailed,Option.some.injEq,Prod.mk.injEq] at merged
      rw [← merged.2]
      have higher := climbs _ _ good.head_readable (good.tail tailed).head_readable (good.climbs_tail tailed)
      simp only [shouldDropNextKey,List.orderedInsert_nil,sortIterPeek,List.head?_cons,Option.map_some,
        Option.any_some]
      exact (beq_eq_false_iff_ne.mpr (ne_of_lt higher)).symm
  | cons j more =>
    have readJ := (inv.1 j (List.mem_cons_of_mem i List.mem_cons_self)).head_readable
    obtain ⟨q,runs'',next,sameIff⟩ := @mergeNext_second_head Nat Nat _ rank SortIterSet SortIterSet.k
      (sortSetTail node) Nat _ key i j more fun r' tailed =>
        ⟨climbs _ _ good.head_readable (good.tail tailed).head_readable (good.climbs_tail tailed),
          fun le => mono _ _ (good.tail tailed).head_readable readJ le⟩
    have same : some (i.k,runs') = some (i.k,q :: runs'') := merged.symm.trans next
    rw [Option.some.injEq,Prod.mk.injEq] at same
    rw [same.2]
    simp only [shouldDropNextKey,sortIterPeek,List.head?_cons,Option.map_some,Option.any_some]
    rw [Bool.eq_iff_iff,beq_iff_eq,beq_iff_eq,sameOk _ _ good.head_readable readJ,sameIff]

theorem keySortFixOverlappingLoop_drain (climbs : ∀ a b, R a → R b → ordered a b → key a < key b)
    (mono : ∀ a b, R a → R b → rank a ≤ rank b → key a ≤ key b)
    (cmpOk : ∀ a b, R a → R b → keySortFixOverlappingCmp node a b = compare (rank a) (rank b)) :
    ∀ fuel data, MergeInv rank SortIterSet.k (GoodSet node R ordered) data →
      (data.flatMap (sortSetKeys node)).length ≤ fuel →
      keySortFixOverlappingLoop node fuel data =
        some ((dropShadowed (fun a b => key a == key b) (drain (sortMergeNext node rank) fuel data)).filter
          fun k => !bkeyDeleted (node.keyAt k))
  | fuel,[],_,_ => by rw [drain_sortMerge_nil,keySortFixOverlappingLoop]; rfl
  | 0,i :: rest,inv,short => absurd (fuel_pos_of_cons inv short) (Nat.lt_irrefl 0)
  | fuel + 1,i :: rest,inv,short => by
    obtain ⟨runs',advanced,merged,inv',fewer⟩ := sortIter_round cmpOk ordRank inv
    have later := keySortFixOverlappingLoop_drain climbs mono cmpOk fuel runs' inv' (by omega)
    have first := drain_sortMerge_head? inv' (show _ ≤ fuel by omega)
    have drop := shouldDropNextKey_eq sameOk climbs mono inv merged
    rw [← first] at drop
    simp only [keySortFixOverlappingLoop,drop,advanced,later,Option.bind_eq_bind,Option.bind_some,
      drain_sortMerge_round fuel merged,dropShadowed_cons]
    cases (drain (sortMergeNext node rank) fuel runs').head?.any (fun next => key i.k == key next) <;>
      cases deleted : bkeyDeleted (node.keyAt i.k) <;> simp [deleted]

end Lookahead

end Loops

-- The ranks the three comparisons compare: a key's position, its position and then
-- its offset, and bkey_iter_cmp's iterRank.
def keyPosRank (node : BtreeNode) (k : Nat) : Nat := bposRank (bkeyUnpackPos node.toBtree (node.keyAt k))

def keyFixRank (node : BtreeNode) (k : Nat) : Nat := keyPosRank node k * 2^16 + k

section Ranks

variable {node : BtreeNode} (formatOk : bch2BkeyFormatInvalid node.format = .ok ())
  (keyBits : node.nrKeyBits = bkeyFormatKeyBits node.format)
include formatOk keyBits

theorem bkeySortCmp_eq_compare {l r : Nat} (readL : KeyReadable node l) (readR : KeyReadable node r) :
    bkeySortCmp node l r = compare (keyPosRank node l) (keyPosRank node r) := by
  rw [bkeySortCmp,bch2BkeyCmpPacked_pos formatOk node.toBtree rfl keyBits readL.1 readR.1,bposCmp_eq_compare]
  rfl

theorem keySortFixOverlappingCmp_eq_compare {l r : Nat} (readL : KeyReadable node l) (readR : KeyReadable node r) :
    keySortFixOverlappingCmp node l r = compare (keyFixRank node l) (keyFixRank node r) := by
  rw [keySortFixOverlappingCmp,bkeySortCmp_eq_compare formatOk keyBits readL readR,keyFixRank,keyFixRank,
    compare_mul_add 16 readL.2 readR.2,cmpInt]

theorem keepUnwrittenWhiteoutsCmp_eq_compare {l r : Nat} (readL : KeyReadable node l) (readR : KeyReadable node r) :
    keepUnwrittenWhiteoutsCmp node l r = compare (iterRank node l) (iterRank node r) :=
  bkeyIterCmp_eq_compare_of_readable formatOk keyBits readL readR

end Ranks

-- bch2_sort_keys hands out the keys of its sets that are not deleted, each as often
-- as the sets hold it, in order of position, with the u64s they fill.
theorem bch2SortKeys_spec {node : BtreeNode} (formatOk : bch2BkeyFormatInvalid node.format = .ok ())
    (keyBits : node.nrKeyBits = bkeyFormatKeyBits node.format) (iter : SortIter)
    (sets : ∀ s ∈ iter.data, GoodSet node (KeyReadable node) (fun a b => keyPosRank node a ≤ keyPosRank node b) s) :
    ∃ out, bch2SortKeys node iter = some (out,keysU64s node out) ∧
      out.Pairwise (fun a b => keyPosRank node a ≤ keyPosRank node b) ∧
      out.Perm ((iter.data.flatMap (sortSetKeys node)).filter fun k => !bkeyDeleted (node.keyAt k)) := by
  have cmpOk : ∀ a b, KeyReadable node a → KeyReadable node b →
      bkeySortCmp node a b = compare (keyPosRank node a) (keyPosRank node b) :=
    fun _ _ readA readB => bkeySortCmp_eq_compare formatOk keyBits readA readB
  have ordRank : ∀ a b, KeyReadable node a → KeyReadable node b →
      keyPosRank node a ≤ keyPosRank node b → keyPosRank node a ≤ keyPosRank node b := fun _ _ _ _ le => le
  obtain ⟨inv,span,drained,drainPerm⟩ := sortIterSort_merge cmpOk ordRank sets
  refine ⟨_,?_,drained.filter _,drainPerm.filter _⟩
  rw [bch2SortKeys,sortKeysLoop_drain cmpOk ordRank _ _ inv span]
  rfl

theorem sortSetKeys_iterTestNode : sortSetKeys iterTestNode ⟨3,13⟩ = [3,8] ∧ sortSetKeys iterTestNode ⟨16,26⟩ = [16,21] := by
  simp [sortSetKeys,bsetKeysFrom,bkeyPNext,iterTestNode,iterTestKey,BKEY_U64s]

theorem iterTestNode_goodSets {ordered : Nat → Nat → Prop} (first : [3,8].Pairwise ordered)
    (second : [16,21].Pairwise ordered) : ∀ s ∈ [⟨3,13⟩,⟨16,26⟩], GoodSet iterTestNode (KeyReadable iterTestNode) ordered s := by
  have readable : ∀ k, KeyReadable iterTestNode k ↔ k < 2^16 := fun k =>
    ⟨fun read => read.2,fun short => ⟨Or.inr (by simp only [iterTestNode]; split_ifs <;> rfl),short⟩⟩
  intro s member
  simp only [List.mem_cons,List.not_mem_nil,or_false] at member
  rcases member with rfl | rfl
  · refine ⟨.step 3 13 (by decide) (.step 8 13 (by decide) (.here 13)),by decide,?_,?_⟩
    · rw [sortSetKeys_iterTestNode.1]
      intro k member
      rw [readable]
      simp only [List.mem_cons,List.not_mem_nil,or_false] at member
      omega
    · rwa [sortSetKeys_iterTestNode.1]
  · refine ⟨.step 16 26 (by decide) (.step 21 26 (by decide) (.here 26)),by decide,?_,?_⟩
    · rw [sortSetKeys_iterTestNode.2]
      intro k member
      rw [readable]
      simp only [List.mem_cons,List.not_mem_nil,or_false] at member
      omega
    · rwa [sortSetKeys_iterTestNode.2]

theorem sort_keys_test_node_sorts :
    ∃ out, bch2SortKeys iterTestNode ⟨[⟨3,13⟩,⟨16,26⟩],MAX_BSETS + 1⟩ = some (out,keysU64s iterTestNode out) ∧
      out.Pairwise (fun a b => keyPosRank iterTestNode a ≤ keyPosRank iterTestNode b) ∧
      out.Perm (([⟨3,13⟩,⟨16,26⟩].flatMap (sortSetKeys iterTestNode)).filter fun k => !bkeyDeleted (iterTestNode.keyAt k)) :=
  bch2SortKeys_spec iterTestNode_valid.formatValid rfl _ (iterTestNode_goodSets (by decide) (by decide))

section FixRank

variable {node : BtreeNode} {a b : Nat}

theorem keyFixRank_le_of_lt (readA : a < 2^16) (lower : keyPosRank node a < keyPosRank node b) :
    keyFixRank node a ≤ keyFixRank node b := by
  unfold keyFixRank
  omega

theorem keyPosRank_le_of_keyFixRank_le (readB : b < 2^16) (le : keyFixRank node a ≤ keyFixRank node b) :
    keyPosRank node a ≤ keyPosRank node b := by
  unfold keyFixRank at le
  omega

theorem keyFixRank_inj (readA : a < 2^16) (readB : b < 2^16) (same : keyFixRank node a = keyFixRank node b) :
    a = b := by
  unfold keyFixRank at same
  omega

theorem keyFixRank_le_iff (samePos : keyPosRank node a = keyPosRank node b) :
    keyFixRank node a ≤ keyFixRank node b ↔ a ≤ b := by
  unfold keyFixRank
  omega

theorem iterRank_le_of_lt (readA : a < 2^16) (lower : keyPosRank node a < keyPosRank node b) :
    iterRank node a ≤ iterRank node b := by
  unfold iterRank keyPosRank at *
  split_ifs <;> omega

theorem keyPosRank_le_of_iterRank_le (readB : b < 2^16) (le : iterRank node a ≤ iterRank node b) :
    keyPosRank node a ≤ keyPosRank node b := by
  unfold iterRank keyPosRank at *
  split_ifs at le <;> omega

theorem iterRank_inj_of_lt (readA : a < 2^16) (readB : b < 2^16) (same : iterRank node a = iterRank node b) : a = b := by
  unfold iterRank at same
  omega

end FixRank

-- bch2_key_sort_fix_overlapping: where each bset climbs strictly in position and no
-- key is in two sets, the keys it copies climb strictly in position, and they are the
-- live keys that no key at a higher offset, of a newer bset, shadows.
theorem bch2KeySortFixOverlapping_spec {node : BtreeNode} (formatOk : bch2BkeyFormatInvalid node.format = .ok ())
    (keyBits : node.nrKeyBits = bkeyFormatKeyBits node.format) (iter : SortIter)
    (sets : ∀ s ∈ iter.data, GoodSet node (KeyReadable node) (fun a b => keyPosRank node a < keyPosRank node b) s)
    (distinct : (iter.data.flatMap (sortSetKeys node)).Nodup) :
    ∃ out nr, bch2KeySortFixOverlapping node iter = some (out,nr,(keysU64s node out).toUInt16) ∧
      out.Pairwise (fun a b => keyPosRank node a < keyPosRank node b) ∧
      ∀ k, k ∈ out ↔ k ∈ iter.data.flatMap (sortSetKeys node) ∧ bkeyDeleted (node.keyAt k) = false ∧
        ∀ k' ∈ iter.data.flatMap (sortSetKeys node), keyPosRank node k' = keyPosRank node k → k' ≤ k := by
  have readAll : ∀ k ∈ iter.data.flatMap (sortSetKeys node), KeyReadable node k := by
    intro k member
    obtain ⟨s,sMem,kMem⟩ := List.mem_flatMap.mp member
    exact (sets s sMem).readable k kMem
  have cmpOk : ∀ a b, KeyReadable node a → KeyReadable node b →
      keySortFixOverlappingCmp node a b = compare (keyFixRank node a) (keyFixRank node b) :=
    fun _ _ readA readB => keySortFixOverlappingCmp_eq_compare formatOk keyBits readA readB
  have sameOk : ∀ a b, KeyReadable node a → KeyReadable node b →
      (bkeySortCmp node a b = .eq ↔ keyPosRank node a = keyPosRank node b) := fun _ _ readA readB => by
    rw [bkeySortCmp_eq_compare formatOk keyBits readA readB,compare_eq_iff_eq]
  have ordRank : ∀ a b, KeyReadable node a → KeyReadable node b →
      keyPosRank node a < keyPosRank node b → keyFixRank node a ≤ keyFixRank node b :=
    fun _ _ readA _ lower => keyFixRank_le_of_lt readA.2 lower
  have mono : ∀ a b, KeyReadable node a → KeyReadable node b →
      keyFixRank node a ≤ keyFixRank node b → keyPosRank node a ≤ keyPosRank node b :=
    fun _ _ _ readB le => keyPosRank_le_of_keyFixRank_le readB.2 le
  obtain ⟨inv,span,drained,toAll⟩ := sortIterSort_merge cmpOk ordRank sets
  -- no key is handed out twice, so the merge's order by keyFixRank is strict
  obtain ⟨climbing,kept⟩ := dropShadowed_of_perm drained toAll distinct
    (fun a aMem b bMem same => keyFixRank_inj (readAll a aMem).2 (readAll b bMem).2 same)
    (fun a aMem b bMem => mono a b (readAll a aMem) (readAll b bMem))
  rw [bch2KeySortFixOverlapping,keySortFixOverlappingLoop_drain sameOk ordRank (fun _ _ _ _ lower => lower) mono cmpOk
    _ _ inv span]
  refine ⟨_,_,rfl,climbing.filter _,fun k => ?_⟩
  rw [List.mem_filter,kept,Bool.not_eq_true']
  constructor
  · rintro ⟨⟨member,top⟩,live⟩
    exact ⟨member,live,fun k' kMem samePos => (keyFixRank_le_iff samePos).mp (top k' kMem samePos)⟩
  · rintro ⟨member,live,top⟩
    exact ⟨⟨member,fun k' kMem samePos => (keyFixRank_le_iff samePos).mpr (top k' kMem samePos)⟩,live⟩

theorem iterTestNode_distinct : ([⟨3,13⟩,⟨16,26⟩].flatMap (sortSetKeys iterTestNode)).Nodup := by
  rw [List.flatMap_cons,List.flatMap_cons,List.flatMap_nil,sortSetKeys_iterTestNode.1,sortSetKeys_iterTestNode.2]
  decide

theorem fix_overlapping_test_node_sorts :
    ∃ out nr, bch2KeySortFixOverlapping iterTestNode ⟨[⟨3,13⟩,⟨16,26⟩],MAX_BSETS + 1⟩ =
        some (out,nr,(keysU64s iterTestNode out).toUInt16) ∧
      out.Pairwise (fun a b => keyPosRank iterTestNode a < keyPosRank iterTestNode b) ∧
      ∀ k, k ∈ out ↔ k ∈ [⟨3,13⟩,⟨16,26⟩].flatMap (sortSetKeys iterTestNode) ∧
        bkeyDeleted (iterTestNode.keyAt k) = false ∧
        ∀ k' ∈ [⟨3,13⟩,⟨16,26⟩].flatMap (sortSetKeys iterTestNode),
          keyPosRank iterTestNode k' = keyPosRank iterTestNode k → k' ≤ k :=
  bch2KeySortFixOverlapping_spec iterTestNode_valid.formatValid rfl _ (iterTestNode_goodSets (by decide) (by decide))
    iterTestNode_distinct

-- bch2_sort_keys_keep_unwritten_whiteouts, on bsets that each climb strictly in position
-- and share no key, copies keys that climb strictly in position: of the keys at each
-- position the one bkey_iter_cmp orders last, a live key over any whiteout, unless it
-- is a whiteout before unwritten_whiteouts_start.
theorem bch2SortKeysKeepUnwrittenWhiteouts_spec {node : BtreeNode}
    (formatOk : bch2BkeyFormatInvalid node.format = .ok ()) (keyBits : node.nrKeyBits = bkeyFormatKeyBits node.format)
    (whiteoutsStart : Nat) (iter : SortIter)
    (sets : ∀ s ∈ iter.data, GoodSet node (KeyReadable node) (fun a b => keyPosRank node a < keyPosRank node b) s)
    (distinct : (iter.data.flatMap (sortSetKeys node)).Nodup) :
    ∃ out, bch2SortKeysKeepUnwrittenWhiteouts node whiteoutsStart iter = some (out,keysU64s node out) ∧
      out.Pairwise (fun a b => keyPosRank node a < keyPosRank node b) ∧
      ∀ k, k ∈ out ↔ k ∈ iter.data.flatMap (sortSetKeys node) ∧
        (bkeyDeleted (node.keyAt k) && decide (k < whiteoutsStart)) = false ∧
        ∀ k' ∈ iter.data.flatMap (sortSetKeys node), keyPosRank node k' = keyPosRank node k →
          iterRank node k' ≤ iterRank node k := by
  have readAll : ∀ k ∈ iter.data.flatMap (sortSetKeys node), KeyReadable node k := by
    intro k member
    obtain ⟨s,sMem,kMem⟩ := List.mem_flatMap.mp member
    exact (sets s sMem).readable k kMem
  have cmpOk : ∀ a b, KeyReadable node a → KeyReadable node b →
      keepUnwrittenWhiteoutsCmp node a b = compare (iterRank node a) (iterRank node b) :=
    fun _ _ readA readB => keepUnwrittenWhiteoutsCmp_eq_compare formatOk keyBits readA readB
  have sameOk : ∀ a b, KeyReadable node a → KeyReadable node b →
      (bkeySortCmp node a b = .eq ↔ keyPosRank node a = keyPosRank node b) := fun _ _ readA readB => by
    rw [bkeySortCmp_eq_compare formatOk keyBits readA readB,compare_eq_iff_eq]
  have ordRank : ∀ a b, KeyReadable node a → KeyReadable node b →
      keyPosRank node a < keyPosRank node b → iterRank node a ≤ iterRank node b :=
    fun _ _ readA _ lower => iterRank_le_of_lt readA.2 lower
  obtain ⟨inv,span,drained,toAll⟩ := sortIterSort_merge cmpOk ordRank sets
  -- as in bch2_key_sort_fix_overlapping, the merge's order is strict on distinct keys
  obtain ⟨climbing,kept⟩ := dropShadowed_of_perm drained toAll distinct
    (fun a aMem b bMem same => iterRank_inj_of_lt (readAll a aMem).2 (readAll b bMem).2 same)
    (fun a _ b bMem le => keyPosRank_le_of_iterRank_le (readAll b bMem).2 le)
  rw [bch2SortKeysKeepUnwrittenWhiteouts,sortKeysKeepUnwrittenWhiteoutsLoop_drain sameOk ordRank whiteoutsStart cmpOk
    _ _ inv span]
  refine ⟨_,rfl,climbing.filter _,fun k => ?_⟩
  rw [List.mem_filter,kept,Bool.not_eq_true',and_assoc]
  exact and_congr_right fun _ => and_comm

theorem keep_unwritten_test_node_sorts :
    ∃ out, bch2SortKeysKeepUnwrittenWhiteouts iterTestNode 13 ⟨[⟨3,13⟩,⟨16,26⟩],MAX_BSETS + 1⟩ =
        some (out,keysU64s iterTestNode out) ∧
      out.Pairwise (fun a b => keyPosRank iterTestNode a < keyPosRank iterTestNode b) ∧
      ∀ k, k ∈ out ↔ k ∈ [⟨3,13⟩,⟨16,26⟩].flatMap (sortSetKeys iterTestNode) ∧
        (bkeyDeleted (iterTestNode.keyAt k) && decide (k < 13)) = false ∧
        ∀ k' ∈ [⟨3,13⟩,⟨16,26⟩].flatMap (sortSetKeys iterTestNode),
          keyPosRank iterTestNode k' = keyPosRank iterTestNode k → iterRank iterTestNode k' ≤ iterRank iterTestNode k :=
  bch2SortKeysKeepUnwrittenWhiteouts_spec iterTestNode_valid.formatValid rfl 13 _
    (iterTestNode_goodSets (by decide) (by decide)) iterTestNode_distinct

end Bcachefs
