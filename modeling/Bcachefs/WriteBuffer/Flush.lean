import Bcachefs.WriteBuffer.KeyRef
import Bcachefs.Lib.Coalesce

namespace Bcachefs

-- bversion_cmp
def bversionCmp (l r : Bversion) : Ordering := (cmpInt l.hi r.hi).then (cmpInt l.lo r.lo)

def KEY_TYPE_accounting : Nat := 34

-- A bkey_i as the write buffer handles it: its position, version and type,
-- and the value's u64s, which for KEY_TYPE_accounting are the counters d[].
structure BkeyI where
  p : Bpos
  bversion : Bversion
  type : Nat
  val : List UInt64
  deriving DecidableEq, Repr

-- The loop of bch2_accounting_accumulate: d[i] += s[i] below both counts.
def accumulateCounters : List UInt64 → List UInt64 → List UInt64
  | d :: ds, s :: ss => (d + s) :: accumulateCounters ds ss
  | ds, _ => ds

-- `if (bversion_cmp(dst->k.bversion, src.k->bversion) < 0) dst->k.bversion = src.k->bversion`
def bversionMax (dst src : Bversion) : Bversion := if bversionCmp dst src = .lt then src else dst

def bch2AccountingAccumulate (dst src : BkeyI) : BkeyI :=
  ⟨dst.p,bversionMax dst.bversion src.bversion,dst.type,accumulateCounters dst.val src.val⟩

-- The enum btree_id numbers of the btrees flagged BTREE_IS_write_buffer.
def BTREE_ID_lru : Nat := 10
def BTREE_ID_backpointers : Nat := 13
def BTREE_ID_deleted_inodes : Nat := 16
def BTREE_ID_rebalance_work : Nat := 18
def BTREE_ID_accounting : Nat := 20

def btreeTypeUsesWriteBuffer (btree : Nat) : Bool :=
  btree ∈ [BTREE_ID_lru,BTREE_ID_backpointers,BTREE_ID_deleted_inodes,BTREE_ID_rebalance_work,BTREE_ID_accounting]

-- struct btree_write_buffered_key, with its bitfields' widths.
structure BtreeWriteBufferedKey where
  btree : Nat
  journalSeq : Nat
  k : BkeyI
  btreeLt : btree < 2^8
  seqLt : journalSeq < 2^56

instance : DecidableEq BtreeWriteBufferedKey := fun a b =>
  decidable_of_iff (a.btree = b.btree ∧ a.journalSeq = b.journalSeq ∧ a.k = b.k) (by
    cases a
    cases b
    simp only [BtreeWriteBufferedKey.mk.injEq])

instance : Inhabited BtreeWriteBufferedKey := ⟨⟨0,0,⟨⟨0,0,0⟩,⟨0,0⟩,0,[]⟩,by decide,by decide⟩⟩

-- Where a key goes: its btree and position.
def wbSlot (wb : BtreeWriteBufferedKey) : Nat × Bpos := (wb.btree,wb.k.p)

-- `k->journal_seq = 0`: the key is done.
def wbKeyDone (wb : BtreeWriteBufferedKey) : BtreeWriteBufferedKey := ⟨wb.btree,0,wb.k,wb.btreeLt,by decide⟩

-- The dedup step: n, the next key at the same position, takes in k's counters
-- when both are accounting keys, and the smaller journal_seq.
def wbKeyAbsorb (n k : BtreeWriteBufferedKey) : BtreeWriteBufferedKey :=
  ⟨n.btree,min n.journalSeq k.journalSeq,
    if k.k.type = KEY_TYPE_accounting ∧ n.k.type = KEY_TYPE_accounting then bch2AccountingAccumulate n.k k.k else n.k,
    n.btreeLt,lt_of_le_of_lt (min_le_left _ _) n.seqLt⟩

-- wb_flush_one: what bch2_btree_insert_key_leaf puts at the key's position,
-- given what the btree holds there. An accounting key takes in an accounting
-- key found there first.
def wbFlushOne (wb : BtreeWriteBufferedKey) (old : Option BkeyI) : BkeyI :=
  match old with
  | some k => if wb.k.type = KEY_TYPE_accounting ∧ k.type = KEY_TYPE_accounting then bch2AccountingAccumulate wb.k k else wb.k
  | none => wb.k

inductive WbErr where
  | erofs
  deriving DecidableEq, Repr

-- The state the flush loop works on: wb->flushing.keys, the btrees' leaf keys
-- by btree and position, the keys handed to wb_flush_one in order, and the
-- slowpath count.
structure WbFlushState where
  keys : List BtreeWriteBufferedKey
  tree : Nat × Bpos → Option BkeyI
  flushed : List BtreeWriteBufferedKey
  slowpath : Nat

-- `overwritten++`: the key n after i, at the same position, absorbs k, and k
-- is done.
def wbKeyOverwritten (st : WbFlushState) (i n : WbKeyRef) (k : BtreeWriteBufferedKey) : WbFlushState :=
  match st.keys[n.idx]? with
  | some nk => ⟨(st.keys.set n.idx (wbKeyAbsorb nk k)).set i.idx (wbKeyDone k),st.tree,st.flushed,st.slowpath⟩
  | none => ⟨st.keys.set i.idx (wbKeyDone k),st.tree,st.flushed,st.slowpath⟩

-- wb_flush_one, then `k->journal_seq = 0`: the key, as wb_flush_one left it,
-- is inserted at its position and done.
def wbKeyFlushed (st : WbFlushState) (i : WbKeyRef) (k : BtreeWriteBufferedKey) : WbFlushState :=
  ⟨st.keys.set i.idx (wbKeyDone ⟨k.btree,k.journalSeq,wbFlushOne k (st.tree (wbSlot k)),k.btreeLt,k.seqLt⟩),
    Coalesce.write wbSlot wbFlushOne st.tree k,st.flushed ++ [k],st.slowpath⟩

-- The darray_for_each loop over wb->sorted: a key followed by one at the same
-- position is merged into it, any other is flushed.
def wbFlushSorted (accountingReplayDone : Bool) : List WbKeyRef → WbFlushState → Except WbErr WbFlushState
  | [], st => .ok st
  | i :: rest, st =>
    match st.keys[i.idx]? with
    | none => wbFlushSorted accountingReplayDone rest st
    | some k =>
      if !btreeTypeUsesWriteBuffer k.btree then .error .erofs
      else if !accountingReplayDone && k.k.type = KEY_TYPE_accounting then
        wbFlushSorted accountingReplayDone rest ⟨st.keys,st.tree,st.flushed,st.slowpath + 1⟩
      else match rest with
        | n :: _ =>
          if wbKeyEq i n then wbFlushSorted accountingReplayDone rest (wbKeyOverwritten st i n k)
          else wbFlushSorted accountingReplayDone rest (wbKeyFlushed st i k)
        | [] => wbFlushSorted accountingReplayDone rest (wbKeyFlushed st i k)

-- The refs of flushing.keys, idx, btree and pos each, as wb_sort sorts them.
def wbKeyRefs (keys : List BtreeWriteBufferedKey) (i : Nat) : WbKeyRef :=
  match keys[i]? with
  | some k => wbKeyRefOf i k.btree k.k.p
  | none => ⟨0,0,0⟩

def wbSortedRefs (keys : List BtreeWriteBufferedKey) : List WbKeyRef :=
  (List.range keys.length).map (wbSort (wbKeyRefs keys) keys.length)

-- wb_key_seq_cmp, and sort_nonatomic: lib/sort.c's heapsort with cmp >= 0.
def wbKeySeqCmp (l r : BtreeWriteBufferedKey) : Ordering := cmpInt l.journalSeq r.journalSeq

def sortNonatomic {α : Type} (cmp : α → α → Ordering) (base : Nat → α) (num : Nat) : Nat → α :=
  HeapSort.sort (fun l r => cmp l r != .lt) base num

-- The slow path, over flushing.keys in journal_seq order: each key still to do
-- is inserted with btree_write_buffered_insert, but accounting keys before
-- accounting replay, which are counted in could_not_insert.
def wbFlushSlowpath (accountingReplayDone : Bool) :
    List BtreeWriteBufferedKey → (Nat × Bpos → Option BkeyI) → Nat →
      List BtreeWriteBufferedKey × (Nat × Bpos → Option BkeyI) × Nat
  | [], tree, couldNotInsert => ([],tree,couldNotInsert)
  | i :: rest, tree, couldNotInsert =>
    if i.journalSeq = 0 then
      let (keys,tree',n) := wbFlushSlowpath accountingReplayDone rest tree couldNotInsert
      (i :: keys,tree',n)
    else if !accountingReplayDone && i.k.type = KEY_TYPE_accounting then
      let (keys,tree',n) := wbFlushSlowpath accountingReplayDone rest tree (couldNotInsert + 1)
      (i :: keys,tree',n)
    else
      let (keys,tree',n) := wbFlushSlowpath accountingReplayDone rest (Function.update tree (wbSlot i) (some i.k))
        couldNotInsert
      (wbKeyDone i :: keys,tree',n)

-- bch2_btree_write_buffer_flush_locked on flushing.keys and the btrees: what
-- is left of flushing.keys, and the btrees after.
def bch2BtreeWriteBufferFlushLocked (accountingReplayDone : Bool) (keys : List BtreeWriteBufferedKey)
    (tree : Nat × Bpos → Option BkeyI) : Except WbErr (List BtreeWriteBufferedKey × (Nat × Bpos → Option BkeyI)) := do
  let st ← wbFlushSorted accountingReplayDone (wbSortedRefs keys) ⟨keys,tree,[],0⟩
  if st.slowpath = 0 then return ([],st.tree)
  else
    let bySeq := (List.range st.keys.length).map
      (sortNonatomic wbKeySeqCmp (fun i => st.keys.getD i default) st.keys.length)
    let (keys',tree',couldNotInsert) := wbFlushSlowpath accountingReplayDone bySeq st.tree 0
    -- with nothing left over, flushing.keys.nr = 0; else the rest is condensed
    if couldNotInsert = 0 then return ([],tree')
    else return (keys'.filter (fun wb => wb.journalSeq ≠ 0),tree')

section Accumulate

-- bversion_cmp compares hi:lo as one number.
def bversionRank (v : Bversion) : Nat := v.hi.toNat * 2^64 + v.lo.toNat

theorem bversionCmp_eq_compare (l r : Bversion) : bversionCmp l r = compare (bversionRank l) (bversionRank r) := by
  rw [bversionRank,bversionRank,WordStream.compare_mul_add 64 l.lo.toNat_lt r.lo.toNat_lt,bversionCmp,cmpInt,
    cmpInt,WordStream.compare_uint32,WordStream.compare_uint64]

theorem bversionRank_inj : Function.Injective bversionRank := by
  intro l r same
  have cmp : bversionCmp l r = .eq := by rw [bversionCmp_eq_compare,same]; exact compare_eq_iff_eq.mpr rfl
  simp only [bversionCmp,cmpInt,Ordering.then_eq_eq] at cmp
  cases l
  cases r
  simp_all

theorem bversionRank_bversionMax (a b : Bversion) :
    bversionRank (bversionMax a b) = max (bversionRank a) (bversionRank b) := by
  unfold bversionMax
  rw [bversionCmp_eq_compare]
  by_cases below : bversionRank a < bversionRank b
  · rw [if_pos (Nat.compare_eq_lt.mpr below)]
    omega
  · rw [if_neg (fun lt => below (Nat.compare_eq_lt.mp lt))]
    omega

theorem bversionMax_assoc (a b c : Bversion) : bversionMax a (bversionMax b c) = bversionMax (bversionMax a b) c :=
  bversionRank_inj (by simp only [bversionRank_bversionMax,max_assoc])

@[simp] theorem length_accumulateCounters (d s : List UInt64) : (accumulateCounters d s).length = d.length := by
  induction d generalizing s with
  | nil => cases s <;> rfl
  | cons x d ih =>
    cases s with
    | nil => rfl
    | cons y s => simp [accumulateCounters,ih]

theorem accumulateCounters_assoc {n k : List UInt64} (same : n.length = k.length) (v : List UInt64) :
    accumulateCounters n (accumulateCounters k v) = accumulateCounters (accumulateCounters n k) v := by
  induction n generalizing k v with
  | nil =>
    rw [List.length_nil,eq_comm,List.length_eq_zero_iff] at same
    subst same
    cases v <;> rfl
  | cons x n ih =>
    cases k with
    | nil => simp at same
    | cons y k =>
      cases v with
      | nil => rfl
      | cons z v => simp [accumulateCounters,ih (Nat.succ.inj same),add_assoc]

theorem getD_accumulateCounters {d s : List UInt64} (same : d.length = s.length) (i : Nat) :
    (accumulateCounters d s).getD i 0 = d.getD i 0 + s.getD i 0 := by
  induction d generalizing s i with
  | nil =>
    rw [List.length_nil,eq_comm,List.length_eq_zero_iff] at same
    subst same
    simp [accumulateCounters]
  | cons x d ih =>
    cases s with
    | nil => simp at same
    | cons y s =>
      cases i with
      | zero => rfl
      | succ i => simpa [accumulateCounters] using ih (Nat.succ.inj same) i

@[simp] theorem type_bch2AccountingAccumulate (dst src : BkeyI) : (bch2AccountingAccumulate dst src).type = dst.type :=
  rfl

@[simp] theorem val_bch2AccountingAccumulate (dst src : BkeyI) :
    (bch2AccountingAccumulate dst src).val = accumulateCounters dst.val src.val := rfl

theorem bch2AccountingAccumulate_assoc {n k : BkeyI} (same : n.val.length = k.val.length) (v : BkeyI) :
    bch2AccountingAccumulate n (bch2AccountingAccumulate k v) =
      bch2AccountingAccumulate (bch2AccountingAccumulate n k) v := by
  simp only [bch2AccountingAccumulate,bversionMax_assoc,accumulateCounters_assoc same]

end Accumulate

section Combine

-- How a key combines with others: whether it is an accounting key, and then
-- how many counters it has.
def wbCls (wb : BtreeWriteBufferedKey) : Option Nat :=
  if wb.k.type = KEY_TYPE_accounting then some wb.k.val.length else none

@[simp] theorem wbFlushOne_none (wb : BtreeWriteBufferedKey) : wbFlushOne wb none = wb.k := rfl

theorem wbFlushOne_accumulates {wb : BtreeWriteBufferedKey} {old : BkeyI} (acct : wb.k.type = KEY_TYPE_accounting)
    (oldAcct : old.type = KEY_TYPE_accounting) : wbFlushOne wb (some old) = bch2AccountingAccumulate wb.k old := by
  simp [wbFlushOne,acct,oldAcct]

theorem wbFlushOne_keeps {wb : BtreeWriteBufferedKey} {old : BkeyI}
    (other : ¬ (wb.k.type = KEY_TYPE_accounting ∧ old.type = KEY_TYPE_accounting)) : wbFlushOne wb (some old) = wb.k := by
  simp only [wbFlushOne,if_neg other]

@[simp] theorem type_wbFlushOne (wb : BtreeWriteBufferedKey) (old : Option BkeyI) :
    (wbFlushOne wb old).type = wb.k.type := by
  unfold wbFlushOne
  split
  · split_ifs <;> rfl
  · rfl

theorem absorb_k (n k : BtreeWriteBufferedKey) :
    (wbKeyAbsorb n k).k =
      if k.k.type = KEY_TYPE_accounting ∧ n.k.type = KEY_TYPE_accounting then bch2AccountingAccumulate n.k k.k else n.k :=
  rfl

@[simp] theorem wbSlot_absorb (n k : BtreeWriteBufferedKey) : wbSlot (wbKeyAbsorb n k) = wbSlot n := by
  simp only [wbSlot,absorb_k]
  split_ifs <;> rfl

@[simp] theorem type_absorb (n k : BtreeWriteBufferedKey) : (wbKeyAbsorb n k).k.type = n.k.type := by
  rw [absorb_k]
  split_ifs <;> rfl

@[simp] theorem length_absorb (n k : BtreeWriteBufferedKey) : (wbKeyAbsorb n k).k.val.length = n.k.val.length := by
  rw [absorb_k]
  split_ifs
  · exact length_accumulateCounters _ _
  · rfl

@[simp] theorem wbCls_absorb (n k : BtreeWriteBufferedKey) : wbCls (wbKeyAbsorb n k) = wbCls n := by
  simp only [wbCls,type_absorb,length_absorb]

theorem journalSeq_absorb (n k : BtreeWriteBufferedKey) :
    (wbKeyAbsorb n k).journalSeq = min n.journalSeq k.journalSeq := rfl

-- For keys of one kind, flushing k and then n into a position is flushing n
-- once it has absorbed k: the dedup pass changes nothing the btree sees.
theorem wbFlushOne_absorb (n k : BtreeWriteBufferedKey) (v : Option BkeyI) (same : wbCls n = wbCls k) :
    wbFlushOne n (some (wbFlushOne k v)) = wbFlushOne (wbKeyAbsorb n k) v := by
  by_cases acct : n.k.type = KEY_TYPE_accounting
  · have kAcct : k.k.type = KEY_TYPE_accounting := by
      by_contra other
      simp [wbCls,acct,other] at same
    have lengths : n.k.val.length = k.k.val.length := by simpa [wbCls,acct,kAcct] using same
    have absorbed : (wbKeyAbsorb n k).k = bch2AccountingAccumulate n.k k.k := by simp [absorb_k,acct,kAcct]
    have absorbedAcct : (wbKeyAbsorb n k).k.type = KEY_TYPE_accounting := by rw [absorbed]; exact acct
    cases v with
    | none => rw [wbFlushOne_none,wbFlushOne_none,wbFlushOne_accumulates acct kAcct,absorbed]
    | some old =>
      by_cases oldAcct : old.type = KEY_TYPE_accounting
      · rw [wbFlushOne_accumulates kAcct oldAcct,wbFlushOne_accumulates acct (show (bch2AccountingAccumulate k.k old).type = _ from kAcct),
          wbFlushOne_accumulates absorbedAcct oldAcct,absorbed,bch2AccountingAccumulate_assoc lengths]
      · rw [wbFlushOne_keeps (fun both => oldAcct both.2),wbFlushOne_accumulates acct kAcct,
          wbFlushOne_keeps (fun both => oldAcct both.2),absorbed]
  · have absorbed : (wbKeyAbsorb n k).k = n.k := by simp [absorb_k,acct]
    have kept : ∀ old, wbFlushOne n (some old) = n.k := fun old => wbFlushOne_keeps (fun both => acct both.1)
    cases v with
    | none => rw [kept,wbFlushOne_none,absorbed]
    | some old => rw [kept,wbFlushOne_keeps (fun both => acct (by rw [← absorbed]; exact both.1)),absorbed]

end Combine

section Loop

-- A ref stands for the key at its idx: built from that key's btree and
-- position, with the key there.
def RefOf (keys : List BtreeWriteBufferedKey) (r : WbKeyRef) : Prop :=
  r.idx < keys.length ∧ r = wbKeyRefOf r.idx (keys.getD r.idx default).btree (keys.getD r.idx default).k.p

-- The keys refs stand for, in the refs' order.
def pendingKeys (keys : List BtreeWriteBufferedKey) (rs : List WbKeyRef) : List BtreeWriteBufferedKey :=
  rs.map (fun r => keys.getD r.idx default)

theorem getD_set_self {keys : List BtreeWriteBufferedKey} {i : Nat} (inside : i < keys.length)
    (x : BtreeWriteBufferedKey) : (keys.set i x).getD i default = x := by
  simp [inside]

theorem getD_set_ne (keys : List BtreeWriteBufferedKey) {i j : Nat} (other : i ≠ j) (x : BtreeWriteBufferedKey) :
    (keys.set i x).getD j default = keys.getD j default := by
  simp [List.getElem?_set_ne other]

theorem getElem?_of_refOf {keys : List BtreeWriteBufferedKey} {r : WbKeyRef} (ref : RefOf keys r) :
    keys[r.idx]? = some (keys.getD r.idx default) := by
  simp [ref.1]

theorem RefOf.congr {keys keys' : List BtreeWriteBufferedKey} {r : WbKeyRef} (ref : RefOf keys r)
    (length : keys'.length = keys.length) (slot : wbSlot (keys'.getD r.idx default) = wbSlot (keys.getD r.idx default)) :
    RefOf keys' r := by
  obtain ⟨inside,built⟩ := ref
  simp only [wbSlot,Prod.mk.injEq] at slot
  exact ⟨length ▸ inside,by rw [slot.1,slot.2]; exact built⟩

theorem wbKeyEq_refOf {keys : List BtreeWriteBufferedKey} {i n : WbKeyRef} (refI : RefOf keys i)
    (refN : RefOf keys n) :
    wbKeyEq i n = true ↔ wbSlot (keys.getD i.idx default) = wbSlot (keys.getD n.idx default) := by
  rw [refI.2,refN.2,wbKeyEq_of _ _ (keys.getD i.idx default).btreeLt (keys.getD n.idx default).btreeLt,← refI.2,← refN.2]
  rfl

variable {st : WbFlushState} {i n : WbKeyRef} {k nk : BtreeWriteBufferedKey}

theorem wbFlushSorted_overwritten {rest : List WbKeyRef} (got : st.keys[i.idx]? = some k)
    (gotNext : st.keys[n.idx]? = some nk) (uses : btreeTypeUsesWriteBuffer k.btree = true) (same : wbKeyEq i n = true) :
    wbFlushSorted true (i :: n :: rest) st =
      wbFlushSorted true (n :: rest) ⟨(st.keys.set n.idx (wbKeyAbsorb nk k)).set i.idx (wbKeyDone k),st.tree,st.flushed,
        st.slowpath⟩ := by
  simp [wbFlushSorted,got,uses,same,wbKeyOverwritten,gotNext]

theorem wbFlushSorted_flushed {rest : List WbKeyRef} (got : st.keys[i.idx]? = some k)
    (uses : btreeTypeUsesWriteBuffer k.btree = true) (ends : ∀ n ∈ rest.head?, wbKeyEq i n = false) :
    wbFlushSorted true (i :: rest) st = wbFlushSorted true rest (wbKeyFlushed st i k) := by
  cases rest with
  | nil => simp [wbFlushSorted,got,uses]
  | cons n rest => simp [wbFlushSorted,got,uses,ends n rfl]

-- The loop over refs of distinct keys: the btrees end as the coalesced keys
-- would write them, wb_flush_one gets the coalesced keys, and each key visited
-- is done. The induction follows the loop down the refs.
theorem wbFlushSorted_coalesce (rs : List WbKeyRef) (st : WbFlushState) (distinct : (rs.map WbKeyRef.idx).Nodup)
    (refs : ∀ r ∈ rs, RefOf st.keys r)
    (uses : ∀ r ∈ rs, btreeTypeUsesWriteBuffer (st.keys.getD r.idx default).btree = true) :
    ∃ st', wbFlushSorted true rs st = .ok st' ∧
      st'.tree = (Coalesce.coalesce wbSlot wbKeyAbsorb (pendingKeys st.keys rs)).foldl
        (Coalesce.write wbSlot wbFlushOne) st.tree ∧
      st'.flushed = st.flushed ++ Coalesce.coalesce wbSlot wbKeyAbsorb (pendingKeys st.keys rs) ∧
      st'.slowpath = st.slowpath ∧ st'.keys.length = st.keys.length ∧
      (∀ r ∈ rs, (st'.keys.getD r.idx default).journalSeq = 0) ∧
      (∀ x, x ∉ rs.map WbKeyRef.idx → st'.keys.getD x default = st.keys.getD x default) := by
  induction rs generalizing st with
  | nil => exact ⟨st,rfl,by simp [pendingKeys,Coalesce.coalesce],by simp [pendingKeys,Coalesce.coalesce],rfl,rfl,by simp,
      fun _ _ => rfl⟩
  | cons i rest ih =>
    obtain ⟨notI,distinctRest⟩ := List.nodup_cons.mp distinct
    have refI := refs i (by simp)
    have got := getElem?_of_refOf refI
    have usesI := uses i (by simp)
    set k := st.keys.getD i.idx default with kDef
    by_cases merges : ∃ n ∈ rest.head?, wbKeyEq i n = true
    · -- `overwritten++`: the next key absorbs k
      obtain ⟨n,nHead,same⟩ := merges
      obtain ⟨rest,rfl⟩ : ∃ rest', rest = n :: rest' := by
        cases rest with
        | nil => simp at nHead
        | cons m rest' => exact ⟨rest',by simp at nHead; rw [nHead]⟩
      have refN := refs n (by simp)
      have slotKN := (wbKeyEq_refOf refI refN).mp same
      obtain ⟨notN,distinctRest'⟩ := List.nodup_cons.mp distinctRest
      have iNotN : i.idx ≠ n.idx := fun eq => notI (by simp [eq])
      set nk := st.keys.getD n.idx default with nkDef
      set st1 : WbFlushState :=
        ⟨(st.keys.set n.idx (wbKeyAbsorb nk k)).set i.idx (wbKeyDone k),st.tree,st.flushed,st.slowpath⟩ with st1Def
      -- every later ref still stands for its key, n's now having absorbed k
      have laterKey : ∀ r ∈ n :: rest, st1.keys.getD r.idx default =
          if r.idx = n.idx then wbKeyAbsorb nk k else st.keys.getD r.idx default := by
        intro r member
        have notIr : i.idx ≠ r.idx := fun eq => notI (List.mem_map.mpr ⟨r,member,eq.symm⟩)
        rw [st1Def,getD_set_ne _ notIr]
        split_ifs with atN
        · rw [atN,getD_set_self refN.1]
        · exact getD_set_ne _ (Ne.symm atN) _
      have laterSlot : ∀ r ∈ n :: rest, wbSlot (st1.keys.getD r.idx default) = wbSlot (st.keys.getD r.idx default) := by
        intro r member
        rw [laterKey r member]
        split_ifs with atN
        · rw [wbSlot_absorb,atN]
        · rfl
      obtain ⟨st',run,tree,flushed,slowpath,length,done,others⟩ := ih st1 distinctRest
        (fun r member => (refs r (List.mem_cons_of_mem _ member)).congr (by simp [st1Def]) (laterSlot r member))
        (fun r member => by
          have := congrArg Prod.fst (laterSlot r member)
          simp only [wbSlot] at this
          rw [this]
          exact uses r (List.mem_cons_of_mem _ member))
      have pending : pendingKeys st1.keys (n :: rest) = wbKeyAbsorb nk k :: pendingKeys st.keys rest := by
        simp only [pendingKeys,List.map_cons]
        rw [laterKey n (by simp),if_pos rfl]
        congr 1
        refine List.map_congr_left (fun r member => ?_)
        rw [laterKey r (List.mem_cons_of_mem _ member),if_neg (fun eq => notN (List.mem_map.mpr ⟨r,member,eq⟩))]
      have coalesced : Coalesce.coalesce wbSlot wbKeyAbsorb (pendingKeys st.keys (i :: n :: rest)) =
          Coalesce.coalesce wbSlot wbKeyAbsorb (pendingKeys st1.keys (n :: rest)) := by
        rw [pending]
        exact Coalesce.coalesce_merge wbSlot wbKeyAbsorb slotKN
      refine ⟨st',?_,?_,?_,slowpath,by simp [length,st1Def],fun r member => ?_,fun x outside => ?_⟩
      · rw [wbFlushSorted_overwritten got (getElem?_of_refOf refN) usesI same]
        exact run
      · rw [coalesced,tree]
      · rw [coalesced,flushed]
      · rcases List.mem_cons.mp member with rfl | later
        · rw [others r.idx notI,st1Def,getD_set_self (by simpa using refI.1)]
          rfl
        · exact done r later
      · have notIx : i.idx ≠ x := fun eq => outside (by simp [eq])
        have notNx : n.idx ≠ x := fun eq => outside (by simp [eq])
        rw [others x (fun member => outside (List.mem_cons_of_mem _ member)),st1Def,getD_set_ne _ notIx,
          getD_set_ne _ notNx]
    · -- wb_flush_one: k is inserted
      have ends : ∀ n ∈ rest.head?, wbKeyEq i n = false := fun n member => by
        simpa using fun same => merges ⟨n,member,same⟩
      set st1 := wbKeyFlushed st i k with st1Def
      have laterKey : ∀ r ∈ rest, st1.keys.getD r.idx default = st.keys.getD r.idx default := by
        intro r member
        exact getD_set_ne _ (fun eq => notI (List.mem_map.mpr ⟨r,member,eq.symm⟩)) _
      obtain ⟨st',run,tree,flushed,slowpath,length,done,others⟩ := ih st1 distinctRest
        (fun r member => (refs r (List.mem_cons_of_mem _ member)).congr (by simp [st1Def,wbKeyFlushed])
          (by rw [laterKey r member]))
        (fun r member => by rw [laterKey r member]; exact uses r (List.mem_cons_of_mem _ member))
      have pending : pendingKeys st1.keys rest = pendingKeys st.keys rest :=
        List.map_congr_left (fun r member => laterKey r member)
      have coalesced : Coalesce.coalesce wbSlot wbKeyAbsorb (pendingKeys st.keys (i :: rest)) =
          k :: Coalesce.coalesce wbSlot wbKeyAbsorb (pendingKeys st.keys rest) := by
        refine Coalesce.coalesce_cons_of_ne wbSlot wbKeyAbsorb (fun m member same => ?_)
        cases rest with
        | nil => simp at member
        | cons n rest =>
          simp only [List.map_cons,List.head?_cons,Option.mem_def,Option.some.injEq] at member
          rw [← member] at same
          have := ends n rfl
          rw [(wbKeyEq_refOf refI (refs n (by simp))).mpr same] at this
          exact Bool.noConfusion this
      refine ⟨st',?_,?_,?_,slowpath,by simp [length,st1Def,wbKeyFlushed],fun r member => ?_,fun x outside => ?_⟩
      · rw [wbFlushSorted_flushed got usesI ends]
        exact run
      · rw [coalesced,tree,pending,List.foldl_cons]
        rfl
      · rw [coalesced,flushed,pending]
        simp [st1Def,wbKeyFlushed]
      · rcases List.mem_cons.mp member with rfl | later
        · rw [others r.idx notI,st1Def,wbKeyFlushed,getD_set_self (by simpa using refI.1)]
          rfl
        · exact done r later
      · have notIx : i.idx ≠ x := fun eq => outside (by simp [eq])
        rw [others x (fun member => outside (List.mem_cons_of_mem _ member)),st1Def,wbKeyFlushed,getD_set_ne _ notIx]

end Loop

end Bcachefs
