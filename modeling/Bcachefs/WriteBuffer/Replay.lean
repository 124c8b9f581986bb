import Bcachefs.WriteBuffer.Flush

namespace Bcachefs

-- The updates of flushing.keys applied one at a time in insertion order, each
-- as a flush of that key alone would apply it.
def wbApplyInOrder (keys : List BtreeWriteBufferedKey) (tree : Nat × Bpos → Option BkeyI) : Nat × Bpos → Option BkeyI :=
  keys.foldl (Coalesce.write wbSlot wbFlushOne) tree

-- The order wb->sorted should be in: by btree, then position, then idx.
def wbRefOrder (keys : List BtreeWriteBufferedKey) (a b : WbKeyRef) : Ordering :=
  (compare (keys.getD a.idx default).btree (keys.getD b.idx default).btree).then
    ((bposCmp (keys.getD a.idx default).k.p (keys.getD b.idx default).k.p).then (compare a.idx b.idx))

-- What a position's keys, in insertion order, should leave to be inserted:
-- the last of them, with their smallest journal_seq and, for accounting keys,
-- each counter summed over all of them (mod 2^64).
def WbSurvivor (run : List BtreeWriteBufferedKey) (w : BtreeWriteBufferedKey) : Prop :=
  ∃ last, run.getLast? = some last ∧ wbSlot w = wbSlot last ∧ w.k.type = last.k.type ∧
    (∀ k ∈ run, w.journalSeq ≤ k.journalSeq) ∧ (∃ k ∈ run, w.journalSeq = k.journalSeq) ∧
    (last.k.type ≠ KEY_TYPE_accounting → w.k = last.k) ∧
    (last.k.type = KEY_TYPE_accounting → w.k.val.length = last.k.val.length ∧
      ∀ i < w.k.val.length, w.k.val[i]? = some (run.map (fun k => k.k.val.getD i 0)).sum)

section Refs

variable {keys : List BtreeWriteBufferedKey}

-- The rank a key's ref sorts by: its position's, then its index.
def refRank (keys : List BtreeWriteBufferedKey) (i : Nat) : Nat := wbSlotRank (wbSlot (keys.getD i default)) * 2^24 + i

theorem wbKeyRefs_of {i : Nat} (inside : i < keys.length) :
    wbKeyRefs keys i = wbKeyRefOf i (keys.getD i default).btree (keys.getD i default).k.p := by
  simp [wbKeyRefs,inside]

theorem idx_wbKeyRefs (few : keys.length < 2^24) {i : Nat} (inside : i < keys.length) : (wbKeyRefs keys i).idx = i := by
  rw [wbKeyRefs_of inside,idx_wbKeyRefOf]
  omega

theorem value_wbKeyRefs (few : keys.length < 2^24) {i : Nat} (inside : i < keys.length) :
    wbKeyRefValue (wbKeyRefs keys i) = refRank keys i := by
  rw [wbKeyRefs_of inside,wbKeyRefValue_of,Nat.mod_eq_of_lt (keys.getD i default).btreeLt,Nat.mod_eq_of_lt (by omega)]
  rfl

theorem wbSortedRefs_perm (few : keys.length < 2^24) :
    ∃ σ : Equiv.Perm ℕ, ((List.range keys.length).map σ).Perm (List.range keys.length) ∧
      wbSortedRefs keys = ((List.range keys.length).map σ).map (wbKeyRefs keys) ∧
      ((List.range keys.length).map σ).Pairwise (fun a b => refRank keys a ≤ refRank keys b ∧ a ≠ b) := by
  obtain ⟨ordered,σ,fixes,sorted⟩ := wbSort_spec (wbKeyRefs keys) keys.length
  have inside : ∀ j, j < keys.length → σ j < keys.length := fun j below =>
    HeapSort.perm_mem_of_fixes (S := fun z => z < keys.length) (fun z outside => fixes z (by omega)) below
  refine ⟨σ,HeapSort.range_map_perm fixes,by rw [wbSortedRefs,sorted,List.map_map],?_⟩
  rw [List.pairwise_map]
  refine List.pairwise_lt_range.imp_of_mem (fun {j j'} member member' less => ⟨?_,fun same => ?_⟩)
  · have := ordered j j' less.le (List.mem_range.mp member')
    rwa [sorted,Function.comp_apply,Function.comp_apply,value_wbKeyRefs few (inside j (List.mem_range.mp member)),
      value_wbKeyRefs few (inside j' (List.mem_range.mp member'))] at this
  · exact absurd (σ.injective same) (Nat.ne_of_lt less)

theorem compare_refRank (few : keys.length < 2^24) {a b : Nat} (aInside : a < keys.length) (bInside : b < keys.length) :
    compare (refRank keys a) (refRank keys b) = wbRefOrder keys (wbKeyRefs keys a) (wbKeyRefs keys b) := by
  rw [refRank,refRank,WordStream.compare_mul_add 24 (by omega) (by omega),compare_wbSlotRank,wbRefOrder,
    idx_wbKeyRefs few aInside,idx_wbKeyRefs few bInside,Ordering.then_assoc]
  rfl

theorem map_getD_range (keys : List BtreeWriteBufferedKey) :
    (List.range keys.length).map (fun i => keys.getD i default) = keys := by
  apply List.ext_getElem (by simp)
  intro i _ inside
  simp [List.getElem?_eq_getElem inside]

theorem pairwise_slot_of_rank {js : List Nat} (bounded : ∀ j ∈ js, j < 2^24)
    (sorted : js.Pairwise (fun a b => refRank keys a ≤ refRank keys b ∧ a ≠ b)) :
    js.Pairwise (fun a b => wbSlotRank (wbSlot (keys.getD a default)) ≤ wbSlotRank (wbSlot (keys.getD b default)) ∧
      (wbSlot (keys.getD a default) = wbSlot (keys.getD b default) → a < b)) := by
  refine sorted.imp_of_mem (fun {a b} aMember bMember ordered => ⟨?_,fun same => ?_⟩)
  · have := bounded a aMember
    have := bounded b bMember
    have := ordered.1
    unfold refRank at this
    omega
  · have := ordered.1
    have := ordered.2
    unfold refRank at *
    rw [same] at *
    omega

theorem filter_sorted_keys {js : List Nat} (perm : js.Perm (List.range keys.length)) (few : keys.length < 2^24)
    (sorted : js.Pairwise (fun a b => refRank keys a ≤ refRank keys b ∧ a ≠ b)) (s : Nat × Bpos) :
    (js.map (fun i => keys.getD i default)).filter (fun k => wbSlot k = s) = keys.filter (fun k => wbSlot k = s) := by
  have bounded : ∀ j ∈ js, j < 2^24 := fun j member => by
    have := List.mem_range.mp (perm.mem_iff.mp member)
    omega
  conv_rhs => rw [← map_getD_range keys]
  rw [List.filter_map,List.filter_map]
  congr 1
  refine List.Pairwise.eq_of_mem_iff (r := fun a b => a < b) ?_ (List.pairwise_lt_range.filter _) ?_
  · rw [List.pairwise_filter]
    refine (pairwise_slot_of_rank bounded sorted).imp (fun {a b} ordered aHere bHere => ordered.2 ?_)
    simp only [Function.comp_apply,decide_eq_true_eq] at aHere bHere
    rw [aHere,bHere]
  · intro x
    simp only [List.mem_filter]
    rw [perm.mem_iff]

end Refs

section Survivor

theorem mergeRun_survivor (k : BtreeWriteBufferedKey) (ks : List BtreeWriteBufferedKey)
    (same : ∀ n ∈ ks, wbSlot n = wbSlot k ∧ wbCls n = wbCls k) :
    WbSurvivor (k :: ks) (Coalesce.mergeRun wbKeyAbsorb k ks) := by
  have sameCls : ∀ n ∈ ks, wbCls n = wbCls k := fun n member => (same n member).2
  set last := (k :: ks).getLast (List.cons_ne_nil _ _) with lastDef
  set w := Coalesce.mergeRun wbKeyAbsorb k ks with wDef
  -- what w takes from the last key
  have slot : wbSlot w = wbSlot last :=
    Coalesce.mergeRun_last wbCls_absorb (f := wbSlot) (fun n k _ => wbSlot_absorb n k) k ks sameCls
  have type : w.k.type = last.k.type :=
    Coalesce.mergeRun_last wbCls_absorb (f := fun x => x.k.type) (fun n k _ => type_absorb n k) k ks sameCls
  have length : w.k.val.length = last.k.val.length :=
    Coalesce.mergeRun_last wbCls_absorb (f := fun x => x.k.val.length) (fun n k _ => length_absorb n k) k ks sameCls
  have plain : (if w.k.type = KEY_TYPE_accounting then none else some w.k) =
      (if last.k.type = KEY_TYPE_accounting then none else some last.k) := by
    refine Coalesce.mergeRun_last wbCls_absorb (f := fun x => if x.k.type = KEY_TYPE_accounting then none else some x.k)
      (fun n k kind => ?_) k ks sameCls
    by_cases acct : n.k.type = KEY_TYPE_accounting
    · simp [acct]
    · have kAcct : ¬ k.k.type = KEY_TYPE_accounting := fun kAcct => by simp [wbCls,acct,kAcct] at kind
      simp [acct,absorb_k,kAcct]
  obtain ⟨least,reached⟩ := Coalesce.mergeRun_min wbCls_absorb (g := fun x => x.journalSeq)
    (fun n k _ => journalSeq_absorb n k) k ks sameCls
  refine ⟨last,List.getLast?_eq_some_getLast _,slot,type,least,reached,fun other => ?_,fun acct => ⟨length,?_⟩⟩
  · simpa [type,other] using plain
  · -- an accounting run: every key is one, so every counter adds up
    intro i below
    have kAcct : k.k.type = KEY_TYPE_accounting := by
      have lastCls : wbCls last = wbCls k := by
        rcases List.mem_cons.mp (List.getLast_mem (List.cons_ne_nil k ks)) with eq | member
        · rw [← lastDef] at eq
          rw [eq]
        · exact sameCls last member
      by_contra other
      simp [wbCls,acct,other] at lastCls
    have allAcct : ∀ x ∈ k :: ks, x.k.type = KEY_TYPE_accounting := by
      intro x member
      rcases List.mem_cons.mp member with rfl | later
      · exact kAcct
      · by_contra other
        have := sameCls x later
        simp [wbCls,kAcct,other] at this
    have summed := Coalesce.mergeRun_sum wbCls_absorb
      (g := fun x => if x.k.type = KEY_TYPE_accounting then x.k.val.getD i 0 else 0) (fun n k kind => ?_) k ks sameCls
    · have wAcct : w.k.type = KEY_TYPE_accounting := type ▸ acct
      simp only [← wDef,wAcct,if_true] at summed
      rw [List.getElem?_eq_getElem below,List.getD_eq_getElem _ _ below] at *
      rw [summed]
      congr 2
      refine List.map_congr_left (fun x member => ?_)
      simp [allAcct x member]
    · by_cases nAcct : n.k.type = KEY_TYPE_accounting
      · have kAcct' : k.k.type = KEY_TYPE_accounting := by
          by_contra other
          simp [wbCls,nAcct,other] at kind
        have lengths : n.k.val.length = k.k.val.length := by simpa [wbCls,nAcct,kAcct'] using kind
        simp only [absorb_k,nAcct,kAcct',and_self,if_true,type_bch2AccountingAccumulate,val_bch2AccountingAccumulate]
        exact getD_accumulateCounters lengths i
      · have kAcct' : ¬ k.k.type = KEY_TYPE_accounting := fun kAcct' => by simp [wbCls,nAcct,kAcct'] at kind
        simp [type_absorb,nAcct,kAcct']

end Survivor

section Flush

variable {keys : List BtreeWriteBufferedKey} {js : List Nat}

theorem flushLocked_of_fastpath {accountingReplayDone : Bool} {tree : Nat × Bpos → Option BkeyI} {st : WbFlushState}
    (run : wbFlushSorted accountingReplayDone (wbSortedRefs keys) ⟨keys,tree,[],0⟩ = .ok st) (fast : st.slowpath = 0) :
    bch2BtreeWriteBufferFlushLocked accountingReplayDone keys tree = .ok ([],st.tree) := by
  simp only [bch2BtreeWriteBufferFlushLocked,run,bind,Except.bind,fast,if_true]
  rfl

theorem idx_sortedRefs (few : keys.length < 2^24) (perm : js.Perm (List.range keys.length)) :
    (js.map (wbKeyRefs keys)).map WbKeyRef.idx = js := by
  rw [List.map_map]
  refine (List.map_congr_left (fun j member => ?_)).trans (List.map_id' js)
  exact idx_wbKeyRefs few (List.mem_range.mp (perm.mem_iff.mp member))

theorem pendingKeys_sortedRefs (few : keys.length < 2^24) (perm : js.Perm (List.range keys.length)) :
    pendingKeys keys (js.map (wbKeyRefs keys)) = js.map (fun i => keys.getD i default) := by
  rw [pendingKeys,List.map_map]
  refine List.map_congr_left (fun j member => ?_)
  simp [idx_wbKeyRefs few (List.mem_range.mp (perm.mem_iff.mp member))]

theorem refOf_sortedRefs (few : keys.length < 2^24) (perm : js.Perm (List.range keys.length)) :
    ∀ r ∈ js.map (wbKeyRefs keys), RefOf keys r := by
  intro r member
  obtain ⟨j,jMember,rfl⟩ := List.mem_map.mp member
  have inside := List.mem_range.mp (perm.mem_iff.mp jMember)
  rw [RefOf,idx_wbKeyRefs few inside]
  exact ⟨inside,wbKeyRefs_of inside⟩

-- Flushing with accounting replay done: wb->sorted is sorted by btree,
-- position and idx; the dedup pass hands wb_flush_one one key per position,
-- the one WbSurvivor describes, and marks every key done; and the btrees end
-- as if the updates had been applied one by one in insertion order.
theorem wb_flush_dedups_like_in_order_updates (keys : List BtreeWriteBufferedKey) (tree : Nat × Bpos → Option BkeyI)
    (few : keys.length < 2^24) (usesWriteBuffer : ∀ k ∈ keys, btreeTypeUsesWriteBuffer k.btree = true)
    (oneKind : ∀ a ∈ keys, ∀ b ∈ keys, wbSlot a = wbSlot b → wbCls a = wbCls b) :
    ((wbSortedRefs keys).map WbKeyRef.idx).Perm (List.range keys.length) ∧
      (wbSortedRefs keys).Pairwise (fun a b => wbRefOrder keys a b ≠ .gt) ∧
      (∃ st, wbFlushSorted true (wbSortedRefs keys) ⟨keys,tree,[],0⟩ = .ok st ∧
        (∀ k ∈ keys, ∃ w, st.flushed.filter (fun x => wbSlot x = wbSlot k) = [w] ∧
          WbSurvivor (keys.filter (fun x => wbSlot x = wbSlot k)) w) ∧
        (∀ w ∈ st.flushed, ∃ k ∈ keys, wbSlot w = wbSlot k) ∧
        (∀ k ∈ st.keys, k.journalSeq = 0)) ∧
      bch2BtreeWriteBufferFlushLocked true keys tree = .ok ([],wbApplyInOrder keys tree) := by
  obtain ⟨σ,perm,refs,ranked⟩ := wbSortedRefs_perm few
  set js := (List.range keys.length).map σ with jsDef
  have inside : ∀ j ∈ js, j < keys.length := fun j member => List.mem_range.mp (perm.mem_iff.mp member)
  have bounded : ∀ j ∈ js, j < 2^24 := fun j member => (inside j member).trans few
  set sortedKeys := js.map (fun i => keys.getD i default) with sortedKeysDef
  have members : ∀ x ∈ sortedKeys, x ∈ keys := by
    intro x member
    obtain ⟨j,jMember,rfl⟩ := List.mem_map.mp member
    rw [List.getD_eq_getElem _ _ (inside j jMember)]
    exact List.getElem_mem _
  -- the keys in wb->sorted order: grouped by position, each group in insertion order
  have bySlot : sortedKeys.Pairwise (fun a b => wbSlotRank (wbSlot a) ≤ wbSlotRank (wbSlot b)) :=
    List.pairwise_map.mpr ((pairwise_slot_of_rank bounded ranked).imp (fun ordered => ordered.1))
  have groups := filter_sorted_keys perm few ranked
  have agree : ∀ a ∈ sortedKeys, ∀ b ∈ sortedKeys, wbSlot a = wbSlot b → wbCls a = wbCls b :=
    fun a aMember b bMember => oneKind a (members a aMember) b (members b bMember)
  -- the flush loop over wb->sorted
  have distinct : ((wbSortedRefs keys).map WbKeyRef.idx).Nodup := by
    rw [refs,idx_sortedRefs few perm]
    exact perm.nodup_iff.mpr List.nodup_range
  obtain ⟨st,run,tree',flushed,slowpath,length,done,_⟩ := wbFlushSorted_coalesce (wbSortedRefs keys)
    ⟨keys,tree,[],0⟩ distinct (by rw [refs]; exact refOf_sortedRefs few perm)
    (fun r member => by
      rw [refs] at member
      obtain ⟨j,jMember,rfl⟩ := List.mem_map.mp member
      rw [idx_wbKeyRefs few (inside j jMember)]
      rw [List.getD_eq_getElem _ _ (inside j jMember)]
      exact usesWriteBuffer _ (List.getElem_mem _))
  rw [refs,pendingKeys_sortedRefs few perm,← sortedKeysDef] at tree' flushed
  refine ⟨by rw [refs,idx_sortedRefs few perm]; exact perm,?_,⟨st,run,?_,?_,?_⟩,?_⟩
  · -- wb->sorted in rank order is in (btree, pos, idx) order
    rw [refs,List.pairwise_map]
    refine ranked.imp_of_mem (fun {a b} aMember bMember ordered => ?_)
    rw [← compare_refRank few (inside a aMember) (inside b bMember)]
    exact fun greater => absurd (Nat.compare_eq_gt.mp greater) (Nat.not_lt.mpr ordered.1)
  · -- one key per position, merged from its whole group
    intro k member
    rw [flushed,List.nil_append,Coalesce.filter_coalesce wbSlot_absorb wbSlotRank_inj sortedKeys bySlot,groups]
    have kHere : k ∈ keys.filter (fun x => wbSlot x = wbSlot k) := List.mem_filter.mpr ⟨member,by simp⟩
    obtain ⟨g,gs,split⟩ : ∃ g gs, keys.filter (fun x => wbSlot x = wbSlot k) = g :: gs := by
      cases h : keys.filter (fun x => wbSlot x = wbSlot k) with
      | nil => rw [h] at kHere; simp at kHere
      | cons g gs => exact ⟨g,gs,rfl⟩
    rw [split]
    refine ⟨_,rfl,mergeRun_survivor g gs (fun n nMember => ?_)⟩
    have gMember : g ∈ keys.filter (fun x => wbSlot x = wbSlot k) := by rw [split]; exact List.mem_cons_self
    have nMember' : n ∈ keys.filter (fun x => wbSlot x = wbSlot k) := by rw [split]; exact List.mem_cons_of_mem _ nMember
    obtain ⟨gIn,gSlot⟩ := List.mem_filter.mp gMember
    obtain ⟨nIn,nSlot⟩ := List.mem_filter.mp nMember'
    simp only [decide_eq_true_eq] at gSlot nSlot
    have sameSlot : wbSlot n = wbSlot g := by rw [gSlot,nSlot]
    exact ⟨sameSlot,oneKind n nIn g gIn sameSlot⟩
  · intro w member
    rw [flushed,List.nil_append] at member
    obtain ⟨y,yMember,ySlot⟩ := Coalesce.slot_mem_coalesce wbSlot_absorb sortedKeys w member
    exact ⟨y,members y yMember,ySlot⟩
  · -- every key was visited, so every key is done
    intro k member
    obtain ⟨x,xInside,rfl⟩ := List.getElem_of_mem member
    have xIn : x ∈ js := perm.mem_iff.mpr (List.mem_range.mpr (by rw [← length]; exact xInside))
    have visited := done (wbKeyRefs keys x) (by rw [refs]; exact List.mem_map_of_mem xIn)
    rwa [idx_wbKeyRefs few (inside x xIn),List.getD_eq_getElem _ _ xInside] at visited
  · -- the btrees: coalescing, then sorting, change nothing they end with
    have final : st.tree = wbApplyInOrder keys tree := by
      rw [tree',Coalesce.foldl_write_coalesce wbSlot_absorb wbCls_absorb
        (fun n k v kind => wbFlushOne_absorb n k v kind) wbSlotRank_inj sortedKeys bySlot agree,wbApplyInOrder]
      exact Coalesce.foldl_write_congr wbSlot wbFlushOne groups tree
    rw [flushLocked_of_fastpath run slowpath,final]

-- Two accounting updates to one counter position with an lru update between
-- them.
def wbTestKeys : List BtreeWriteBufferedKey :=
  [⟨BTREE_ID_accounting,10,⟨⟨0,5,0⟩,⟨0,1⟩,KEY_TYPE_accounting,[1,2]⟩,by decide,by decide⟩,
    ⟨BTREE_ID_lru,11,⟨⟨1,1,0⟩,⟨0,0⟩,13,[]⟩,by decide,by decide⟩,
    ⟨BTREE_ID_accounting,12,⟨⟨0,5,0⟩,⟨0,2⟩,KEY_TYPE_accounting,[3,4]⟩,by decide,by decide⟩]

theorem wb_flush_test_keys :
    (wbTestKeys.length < 2^24 ∧ (∀ k ∈ wbTestKeys, btreeTypeUsesWriteBuffer k.btree = true) ∧
      ∀ a ∈ wbTestKeys, ∀ b ∈ wbTestKeys, wbSlot a = wbSlot b → wbCls a = wbCls b) ∧
    ((wbSortedRefs wbTestKeys).map WbKeyRef.idx).Perm (List.range wbTestKeys.length) ∧
      (wbSortedRefs wbTestKeys).Pairwise (fun a b => wbRefOrder wbTestKeys a b ≠ .gt) ∧
      (∃ st, wbFlushSorted true (wbSortedRefs wbTestKeys) ⟨wbTestKeys,fun _ => none,[],0⟩ = .ok st ∧
        (∀ k ∈ wbTestKeys, ∃ w, st.flushed.filter (fun x => wbSlot x = wbSlot k) = [w] ∧
          WbSurvivor (wbTestKeys.filter (fun x => wbSlot x = wbSlot k)) w) ∧
        (∀ w ∈ st.flushed, ∃ k ∈ wbTestKeys, wbSlot w = wbSlot k) ∧
        (∀ k ∈ st.keys, k.journalSeq = 0)) ∧
      bch2BtreeWriteBufferFlushLocked true wbTestKeys (fun _ => none) =
        .ok ([],wbApplyInOrder wbTestKeys (fun _ => none)) :=
  ⟨⟨by decide,by decide,by decide⟩,
    wb_flush_dedups_like_in_order_updates wbTestKeys (fun _ => none) (by decide) (by decide) (by decide)⟩

-- A whiteout (KEY_TYPE_deleted) then an accounting update at one accounting position
-- that already holds an accounting key, as bch2_dev_usage_remove's updates can leave.
def wbMixedKeys : List BtreeWriteBufferedKey :=
  [⟨BTREE_ID_accounting,10,⟨⟨0,5,0⟩,⟨0,1⟩,0,[]⟩,by decide,by decide⟩,
    ⟨BTREE_ID_accounting,11,⟨⟨0,5,0⟩,⟨0,2⟩,KEY_TYPE_accounting,[5]⟩,by decide,by decide⟩]

def wbMixedTree : Nat × Bpos → Option BkeyI := fun _ => some ⟨⟨0,5,0⟩,⟨0,0⟩,KEY_TYPE_accounting,[10]⟩

theorem wbSortedRefs_wbMixedKeys : wbSortedRefs wbMixedKeys = [wbKeyRefs wbMixedKeys 0,wbKeyRefs wbMixedKeys 1] := by
  obtain ⟨σ,perm,refs,ranked⟩ := @wbSortedRefs_perm wbMixedKeys (by decide)
  obtain ⟨a,b,two⟩ := List.length_eq_two.mp (perm.length_eq.trans List.length_range)
  rw [two] at perm ranked refs
  have aIn := List.mem_range.mp (perm.subset List.mem_cons_self)
  have bIn := List.mem_range.mp (perm.subset (List.mem_cons_of_mem a List.mem_cons_self))
  obtain ⟨le,apart⟩ := List.rel_of_pairwise_cons ranked List.mem_cons_self
  -- of the two orders of the indices only 0, 1 climbs in rank
  have climbing : ∀ a < 2, ∀ b < 2, refRank wbMixedKeys a ≤ refRank wbMixedKeys b → a ≠ b → a = 0 ∧ b = 1 := by
    decide
  obtain ⟨rfl,rfl⟩ := climbing a aIn b bIn le apart
  exact refs

-- The dedup pass drops the whiteout without taking in anything, so the accounting key
-- absorbs the btree's counters: the flush leaves 15 where the updates one by one
-- leave 5, the whiteout having cleared the 10 first.
theorem wb_flush_mixed_position_keeps_btree_counters :
    ¬ (∀ a ∈ wbMixedKeys, ∀ b ∈ wbMixedKeys, wbSlot a = wbSlot b → wbCls a = wbCls b) ∧
      (bch2BtreeWriteBufferFlushLocked true wbMixedKeys wbMixedTree).map
          (fun r => (r.1,(r.2 (BTREE_ID_accounting,⟨0,5,0⟩)).map BkeyI.val)) = .ok ([],some [15]) ∧
      (wbApplyInOrder wbMixedKeys wbMixedTree (BTREE_ID_accounting,⟨0,5,0⟩)).map BkeyI.val = some [5] := by
  refine ⟨by decide,?_,by decide⟩
  unfold bch2BtreeWriteBufferFlushLocked
  rw [wbSortedRefs_wbMixedKeys]
  decide

end Flush

end Bcachefs
