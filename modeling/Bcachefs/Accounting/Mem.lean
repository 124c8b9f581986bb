import Mathlib
import Bcachefs.Bkey.Cmp
import Bcachefs.Lib.Bytes
import Bcachefs.Lib.EytzingerSort

namespace Bcachefs
open Eytzinger

-- enum disk_accounting_type, as the type byte of an accounting position.
def BCH_DISK_ACCOUNTING_persistent_reserved : UInt8 := 1
def BCH_DISK_ACCOUNTING_replicas : UInt8 := 2
def BCH_DISK_ACCOUNTING_dev_data_type : UInt8 := 3
def BCH_DISK_ACCOUNTING_inum : UInt8 := 8
def BCH_DISK_ACCOUNTING_TYPE_NR : UInt8 := 9

-- enum bch_data_type, the values fs_usage_data_type_to_base tells apart.
def BCH_DATA_btree : UInt8 := 3
def BCH_DATA_user : UInt8 := 4
def BCH_DATA_cached : UInt8 := 5
def BCH_DATA_parity : UInt8 := 6

-- The bytes of struct disk_accounting_pos: the type, then the type's own struct.
structure DiskAccountingPos where
  bytes : List UInt8
  deriving DecidableEq, Repr

def DiskAccountingPos.type (acc : DiskAccountingPos) : UInt8 := acc.bytes.getD 0 0
def DiskAccountingPos.persistentReservedNrReplicas (acc : DiskAccountingPos) : UInt8 := acc.bytes.getD 1 0
def DiskAccountingPos.replicasDataType (acc : DiskAccountingPos) : UInt8 := acc.bytes.getD 1 0
def DiskAccountingPos.devDataTypeDev (acc : DiskAccountingPos) : UInt8 := acc.bytes.getD 1 0
def DiskAccountingPos.devDataTypeDataType (acc : DiskAccountingPos) : UInt8 := acc.bytes.getD 2 0

-- On a little-endian machine memcpy_swab of the bpos (snapshot, offset, inode):
-- the type is the top byte of the inode.
def bposToDiskAccountingPos (p : Bpos) : DiskAccountingPos :=
  ⟨(Bytes.leBytes 4 p.snapshot.toNat ++ Bytes.leBytes 8 p.offset.toNat ++ Bytes.leBytes 8 p.inode.toNat).reverse⟩

def bch2AccountingIsMem (acc : DiskAccountingPos) : Bool :=
  acc.type < BCH_DISK_ACCOUNTING_TYPE_NR && acc.type != BCH_DISK_ACCOUNTING_inum

-- Whether accounting_to_replicas finds a replicas entry in the position.
def accountingToReplicas (p : Bpos) : Bool :=
  (bposToDiskAccountingPos p).type == BCH_DISK_ACCOUNTING_replicas

inductive BchAccountingMode
  | normal
  | gc
  | read
  deriving DecidableEq, Repr

-- An accounting key: its position and the counters of its value.
structure BkeyIAccounting where
  p : Bpos
  d : List UInt64
  deriving DecidableEq, Repr

def bch2AccountingNeg (a : BkeyIAccounting) : BkeyIAccounting := { a with d := a.d.map (- ·) }

-- struct accounting_mem_entry, each percpu counter read as its sum over the cpus.
structure AccountingMemEntry where
  pos : Bpos
  nrCounters : Nat
  v0 : List UInt64
  v1 : Option (List UInt64)
  deriving DecidableEq, Repr

instance : Inhabited AccountingMemEntry := ⟨⟨⟨0, 0, 0⟩, 0, [], none⟩⟩

structure BchAccountingMem where
  k : List AccountingMemEntry
  gcRunning : Bool
  deriving DecidableEq, Repr

structure BchDevUsageType where
  buckets : UInt64
  sectors : UInt64
  fragmented : UInt64
  deriving DecidableEq, Repr

-- struct bch_dev_usage_full, the type of ca->usage, summed over the cpus.
structure BchDevUsageFull where
  d : Nat → BchDevUsageType

-- The fields of struct bch_fs_usage_base that accounting keys add to.
structure BchFsUsageBase where
  btree : UInt64
  data : UInt64
  cached : UInt64
  reserved : UInt64
  deriving DecidableEq, Repr

-- What the accounting updates read and write of struct bch_fs: c->accounting,
-- c->sb.nr_devices and the usage of the device in each c->devs[] slot.
structure AccountingFs where
  accounting : BchAccountingMem
  nrDevices : Nat
  devUsage : Nat → Option BchDevUsageFull

structure BtreeTrans where
  c : AccountingFs
  fsUsageDelta : BchFsUsageBase

inductive AccountingErr
  | btreeInsertNeedMarkReplicas
  | enomemDiskAccounting
  deriving DecidableEq, Repr

def fsUsageDataTypeToBase (fsUsage : BchFsUsageBase) (dataType : UInt8) (sectors : UInt64) : BchFsUsageBase :=
  if dataType = BCH_DATA_btree then { fsUsage with btree := fsUsage.btree + sectors }
  else if dataType = BCH_DATA_user ∨ dataType = BCH_DATA_parity then { fsUsage with data := fsUsage.data + sectors }
  else if dataType = BCH_DATA_cached then { fsUsage with cached := fsUsage.cached + sectors }
  else fsUsage

-- bch2_dev_rcu_noerror, and the device's ca->usage.
def bch2DevRcuNoerror (c : AccountingFs) (dev : Nat) : Option BchDevUsageFull :=
  if dev < c.nrDevices then c.devUsage dev else none

-- The switch at the head of bch2_accounting_mem_mod_locked in normal mode, run
-- before the entry is looked up: persistent_reserved and replicas keys add to
-- trans->fs_usage_delta, dev_data_type keys to the device's ca->usage.
def accountingModUsage (trans : BtreeTrans) (a : BkeyIAccounting) : BtreeTrans :=
  let accK := bposToDiskAccountingPos a.p
  if accK.type = BCH_DISK_ACCOUNTING_persistent_reserved then
    { trans with fsUsageDelta := { trans.fsUsageDelta with
        reserved := trans.fsUsageDelta.reserved + accK.persistentReservedNrReplicas.toUInt64 * a.d.getD 0 0 } }
  else if accK.type = BCH_DISK_ACCOUNTING_replicas then
    { trans with fsUsageDelta := fsUsageDataTypeToBase trans.fsUsageDelta accK.replicasDataType (a.d.getD 0 0) }
  else if accK.type = BCH_DISK_ACCOUNTING_dev_data_type then
    match bch2DevRcuNoerror trans.c accK.devDataTypeDev.toNat with
    | some usage =>
      let dataType := accK.devDataTypeDataType.toNat
      let u := usage.d dataType
      let usage : BchDevUsageFull := ⟨Function.update usage.d dataType
        ⟨u.buckets + a.d.getD 0 0, u.sectors + a.d.getD 1 0, u.fragmented + a.d.getD 2 0⟩⟩
      { trans with c := { trans.c with devUsage := Function.update trans.c.devUsage accK.devDataTypeDev.toNat (some usage) } }
    | none => trans
  else trans

-- this_cpu_add of d[i] to v[i] for every counter of the key; a counter past the
-- entry's own is not written.
def accountingAddCounters (v d : List UInt64) : List UInt64 :=
  List.zipWith (· + ·) v d ++ v.drop d.length

def accountingEntries (k : List AccountingMemEntry) : Nat → AccountingMemEntry := fun i => k.getD i default

-- eytzinger0_find with accounting_pos_cmp, which compares the entries' pos.
def accountingFind (k : List AccountingMemEntry) (p : Bpos) : Nat :=
  eytzinger0Find (fun p e => bposCmp p e.pos) (accountingEntries k) k.length p

def accountingSort (k : List AccountingMemEntry) : List AccountingMemEntry :=
  (List.range k.length).map (eytzinger0Sort (fun l r => bposCmp l.pos r.pos) (accountingEntries k) k.length)

-- The entry __bch2_accounting_mem_insert builds: zeroed percpu counters, v[1]
-- only while gc runs.
def accountingMemEntryNew (a : BkeyIAccounting) (gcRunning : Bool) : AccountingMemEntry :=
  ⟨a.p, a.d.length, List.replicate a.d.length 0, if gcRunning then some (List.replicate a.d.length 0) else none⟩

-- __bch2_accounting_mem_insert; alloc says whether the percpu allocations of
-- v[0] (and of v[1] while gc runs) and the darray_push succeed.
def rawBch2AccountingMemInsert (acc : BchAccountingMem) (a : BkeyIAccounting) (alloc : Bool) :
    Except AccountingErr BchAccountingMem :=
  -- raced with another insert, already present
  if accountingFind acc.k a.p < acc.k.length then .ok acc
  else if alloc then .ok { acc with k := accountingSort (acc.k ++ [accountingMemEntryNew a acc.gcRunning]) }
  else .error .enomemDiskAccounting

-- marked stands for bch2_replicas_marked_locked on the replicas entry of the position.
def bch2AccountingMemInsert (marked : Bpos → Bool) (acc : BchAccountingMem) (a : BkeyIAccounting)
    (mode : BchAccountingMode) (alloc : Bool) : Except AccountingErr BchAccountingMem :=
  if mode ≠ .read ∧ accountingToReplicas a.p = true ∧ marked a.p = false then
    .error .btreeInsertNeedMarkReplicas
  else rawBch2AccountingMemInsert acc a alloc

-- The loop of bch2_accounting_mem_mod_locked that inserts until the lookup finds
-- the entry; fuel bounds its rounds.
def accountingMemModLoop (marked : Bpos → Bool) (a : BkeyIAccounting) (mode : BchAccountingMode) (alloc : Bool) :
    Nat → BchAccountingMem → Option (BchAccountingMem × Except AccountingErr Nat)
  | 0, _ => none
  | fuel + 1, acc =>
    if accountingFind acc.k a.p < acc.k.length then some (acc, .ok (accountingFind acc.k a.p))
    else
      match bch2AccountingMemInsert marked acc a mode alloc with
      | .error e => some (acc, .error e)
      | .ok acc => accountingMemModLoop marked a mode alloc fuel acc

def accountingMemEntryAdd (e : AccountingMemEntry) (d : List UInt64) (gc : Bool) : AccountingMemEntry :=
  if gc then { e with v1 := e.v1.map (accountingAddCounters · d) }
  else { e with v0 := accountingAddCounters e.v0 d }

def bch2AccountingMemModLocked (marked : Bpos → Bool) (fuel : Nat) (alloc : Bool) (trans : BtreeTrans)
    (a : BkeyIAccounting) (mode : BchAccountingMode) : Option (Except AccountingErr Unit × BtreeTrans) :=
  let gc := mode == .gc
  if gc && !trans.c.accounting.gcRunning then some (.ok (), trans)
  else if !bch2AccountingIsMem (bposToDiskAccountingPos a.p) then some (.ok (), trans)
  else
    let trans := if mode = .normal then accountingModUsage trans a else trans
    let setAccounting (acc : BchAccountingMem) : BtreeTrans := { trans with c := { trans.c with accounting := acc } }
    match accountingMemModLoop marked a mode alloc fuel trans.c.accounting with
    | none => none
    | some (acc, .error e) => some (.error e, setAccounting acc)
    | some (acc, .ok idx) => some (.ok (), setAccounting { acc with k := acc.k.modify idx (accountingMemEntryAdd · a.d gc) })

def bch2AccountingMemReadCounters (acc : BchAccountingMem) (idx nr : Nat) (gc : Bool) : List UInt64 :=
  if idx < acc.k.length then
    let e := accountingEntries acc.k idx
    let v := if gc then e.v1.getD [] else e.v0
    (List.range nr).map fun i => if i < e.nrCounters then v.getD i 0 else 0
  else List.replicate nr 0

def bch2AccountingMemRead (acc : BchAccountingMem) (p : Bpos) (nr : Nat) : List UInt64 :=
  bch2AccountingMemReadCounters acc (accountingFind acc.k p) nr false

def accountingMemEntryIsZero (e : AccountingMemEntry) : Bool :=
  (List.range e.nrCounters).all fun i => e.v0.getD i 0 == 0 && e.v1.all fun v => v.getD i 0 == 0

def bch2AccountingMemGc (acc : BchAccountingMem) : BchAccountingMem :=
  { acc with k := accountingSort (acc.k.filter fun e => !accountingMemEntryIsZero e) }

-- What every operation keeps of c->accounting: the entries in Eytzinger order by
-- position, and v[1] allocated for each of them while gc runs.
structure AccountingMemInv (acc : BchAccountingMem) : Prop where
  sorted : Sorted (fun e : AccountingMemEntry => bposRank e.pos) (accountingEntries acc.k) acc.k.length
  gcAllocated : acc.gcRunning = true → ∀ e ∈ acc.k, e.v1.isSome

section Lookup

variable {k : List AccountingMemEntry} {p : Bpos}

theorem accountingEntries_of_lt {i : Nat} (inside : i < k.length) : accountingEntries k i = k[i] :=
  List.getD_eq_getElem _ _ inside

theorem map_accountingEntries_range : (List.range k.length).map (accountingEntries k) = k := by
  apply List.ext_getElem (by simp)
  intro i inside _
  rw [List.getElem_map,List.getElem_range,accountingEntries_of_lt (by simpa using inside)]

theorem bposCmp_eq_iff {l r : Bpos} : bposCmp l r = .eq ↔ l = r := by
  rw [bposCmp_eq_compare,compare_eq_iff_eq]
  exact bposRank_inj.eq_iff

theorem accountingFind_found (found : accountingFind k p < k.length) :
    (accountingEntries k (accountingFind k p)).pos = p := by
  unfold accountingFind at found ⊢
  have hit := eytzinger0Find_found found
  exact (bposCmp_eq_iff.mp hit).symm

theorem accountingFind_of_absent (absent : ∀ e ∈ k, e.pos ≠ p) : k.length ≤ accountingFind k p := by
  apply eytzinger0Find_of_absent
  intro i inside hit
  rw [accountingEntries_of_lt inside] at hit
  exact absent _ (List.getElem_mem inside) (bposCmp_eq_iff.mp hit).symm

variable (sorted : Sorted (fun e : AccountingMemEntry => bposRank e.pos) (accountingEntries k) k.length)
include sorted

theorem accountingFind_of_mem {i : Nat} (inside : i < k.length) : accountingFind k k[i].pos = i := by
  have cmp : (fun p e => bposCmp p e.pos) =
      fun (s : Bpos) (x : AccountingMemEntry) => compare (bposRank s) (bposRank x.pos) := by
    funext s x
    exact bposCmp_eq_compare s x.pos
  rw [accountingFind,cmp]
  exact eytzinger0Find_of_mem sorted.searchTree inside (by rw [accountingEntries_of_lt inside])

theorem accountingFind_lt_iff : accountingFind k p < k.length ↔ ∃ e ∈ k, e.pos = p := by
  constructor
  · intro found
    refine ⟨_,?_,accountingFind_found found⟩
    rw [accountingEntries_of_lt found]
    exact List.getElem_mem found
  · rintro ⟨e,member,rfl⟩
    obtain ⟨i,inside,rfl⟩ := List.mem_iff_getElem.mp member
    rw [accountingFind_of_mem sorted inside]
    exact inside

theorem nodup_pos_of_sorted : (k.map (·.pos)).Nodup := by
  rw [List.nodup_iff_injective_get]
  intro i j same
  have iIn : (i : Nat) < k.length := by simpa using i.isLt
  have jIn : (j : Nat) < k.length := by simpa using j.isLt
  simp only [List.get_eq_getElem,List.getElem_map] at same
  apply Fin.ext
  apply sorted.injective iIn jIn
  rw [accountingEntries_of_lt iIn,accountingEntries_of_lt jIn,same]

end Lookup

section Sorting

variable {k : List AccountingMemEntry}

@[simp] theorem length_accountingSort : (accountingSort k).length = k.length := by
  simp [accountingSort]

theorem accountingSort_spec (distinct : (k.map (·.pos)).Nodup) :
    Sorted (fun e : AccountingMemEntry => bposRank e.pos) (accountingEntries (accountingSort k)) k.length ∧
      (accountingSort k).Perm k := by
  have cmp : (fun l r : AccountingMemEntry => bposCmp l.pos r.pos) =
      fun l r => compare (bposRank l.pos) (bposRank r.pos) := by
    funext l r
    exact bposCmp_eq_compare l.pos r.pos
  have keysDistinct : ∀ x y, x < k.length → y < k.length →
      bposRank (accountingEntries k x).pos = bposRank (accountingEntries k y).pos → x = y := by
    intro x y xIn yIn same
    have xIn' : x < (k.map (·.pos)).length := by simpa using xIn
    have yIn' : y < (k.map (·.pos)).length := by simpa using yIn
    rw [accountingEntries_of_lt xIn,accountingEntries_of_lt yIn] at same
    have samePos : (k.map (·.pos))[x] = (k.map (·.pos))[y] := by simpa using bposRank_inj same
    exact distinct.getElem_inj_iff.mp samePos
  obtain ⟨sorted,σ,fixes,sortedEq⟩ :=
    eytzinger0Sort_spec (fun e : AccountingMemEntry => bposRank e.pos) (accountingEntries k) keysDistinct
  have readBack : ∀ i, i < k.length → accountingEntries (accountingSort k) i =
      eytzinger0Sort (fun l r => bposCmp l.pos r.pos) (accountingEntries k) k.length i := by
    intro i inside
    rw [accountingEntries_of_lt (by simpa using inside)]
    simp [accountingSort]
  constructor
  · apply sorted.congr
    intro i inside
    rw [readBack i inside,cmp]
  · rw [accountingSort,cmp,sortedEq,← List.map_map]
    have reordered := (HeapSort.range_map_perm fixes).map (accountingEntries k)
    rwa [map_accountingEntries_range] at reordered

end Sorting

section Insert

variable {acc : BchAccountingMem} {a : BkeyIAccounting}

theorem rawBch2AccountingMemInsert_of_absent {alloc : Bool} (absent : ∀ e ∈ acc.k, e.pos ≠ a.p) :
    rawBch2AccountingMemInsert acc a alloc =
      if alloc then .ok { acc with k := accountingSort (acc.k ++ [accountingMemEntryNew a acc.gcRunning]) }
      else .error .enomemDiskAccounting := by
  rw [rawBch2AccountingMemInsert,if_neg (not_lt.mpr (accountingFind_of_absent absent))]

theorem bch2AccountingMemInsert_of_absent {marked : Bpos → Bool} {mode : BchAccountingMode} {alloc : Bool}
    {acc' : BchAccountingMem} (absent : ∀ e ∈ acc.k, e.pos ≠ a.p)
    (inserted : bch2AccountingMemInsert marked acc a mode alloc = .ok acc') :
    acc' = { acc with k := accountingSort (acc.k ++ [accountingMemEntryNew a acc.gcRunning]) } := by
  unfold bch2AccountingMemInsert at inserted
  split at inserted
  · cases inserted
  · rw [rawBch2AccountingMemInsert_of_absent absent] at inserted
    split at inserted
    · exact (Except.ok.inj inserted).symm
    · cases inserted

theorem nodup_pos_insert (inv : AccountingMemInv acc) (absent : ∀ e ∈ acc.k, e.pos ≠ a.p) :
    ((acc.k ++ [accountingMemEntryNew a acc.gcRunning]).map (·.pos)).Nodup := by
  have old := nodup_pos_of_sorted inv.sorted
  simpa [List.nodup_append,old,accountingMemEntryNew] using absent

theorem accountingMemInv_insert (inv : AccountingMemInv acc) (absent : ∀ e ∈ acc.k, e.pos ≠ a.p) :
    AccountingMemInv { acc with k := accountingSort (acc.k ++ [accountingMemEntryNew a acc.gcRunning]) } := by
  obtain ⟨sorted,perm⟩ := accountingSort_spec (nodup_pos_insert inv absent)
  constructor
  · simpa using sorted
  · intro running e member
    rcases List.mem_append.mp (perm.mem_iff.mp member) with old | new
    · exact inv.gcAllocated running e old
    · rw [List.mem_singleton.mp new,accountingMemEntryNew]
      simpa using running

end Insert

section Loop

variable {marked : Bpos → Bool} {a : BkeyIAccounting} {mode : BchAccountingMode} {alloc : Bool}
  {acc : BchAccountingMem}

theorem accountingMemModLoop_found {fuel : Nat} (found : accountingFind acc.k a.p < acc.k.length) :
    accountingMemModLoop marked a mode alloc (fuel + 1) acc = some (acc, .ok (accountingFind acc.k a.p)) := by
  rw [accountingMemModLoop,if_pos found]

theorem accountingMemModLoop_spec (inv : AccountingMemInv acc) (fuel : Nat) :
    accountingMemModLoop marked a mode alloc (fuel + 2) acc =
      match (if ∃ e ∈ acc.k, e.pos = a.p then .ok acc else bch2AccountingMemInsert marked acc a mode alloc) with
      | .error e => some (acc, .error e)
      | .ok acc' => some (acc', .ok (accountingFind acc'.k a.p)) := by
  by_cases present : ∃ e ∈ acc.k, e.pos = a.p
  · rw [if_pos present,accountingMemModLoop_found ((accountingFind_lt_iff inv.sorted).mpr present)]
  · have absent : ∀ e ∈ acc.k, e.pos ≠ a.p := fun e member same => present ⟨e,member,same⟩
    have missed : ¬ accountingFind acc.k a.p < acc.k.length :=
      fun found => present ((accountingFind_lt_iff inv.sorted).mp found)
    rw [if_neg present,accountingMemModLoop,if_neg missed]
    cases inserted : bch2AccountingMemInsert marked acc a mode alloc with
    | error e => rfl
    | ok acc' =>
      have grown := bch2AccountingMemInsert_of_absent absent inserted
      subst grown
      have found := (accountingFind_lt_iff (accountingMemInv_insert inv absent).sorted).mpr
        ⟨accountingMemEntryNew a acc.gcRunning,
          (accountingSort_spec (nodup_pos_insert inv absent)).2.mem_iff.mpr (by simp),rfl⟩
      exact accountingMemModLoop_found found

theorem accountingMemModLoop_enomem (absent : ∀ e ∈ acc.k, e.pos ≠ a.p)
    (notReplicas : accountingToReplicas a.p = false) (fuel : Nat) :
    accountingMemModLoop marked a mode false (fuel + 1) acc = some (acc, .error .enomemDiskAccounting) := by
  have missed : ¬ accountingFind acc.k a.p < acc.k.length := not_lt.mpr (accountingFind_of_absent absent)
  have checked : ¬ (mode ≠ .read ∧ accountingToReplicas a.p = true ∧ marked a.p = false) := by
    simp [notReplicas]
  rw [accountingMemModLoop,if_neg missed,bch2AccountingMemInsert,if_neg checked,
    rawBch2AccountingMemInsert_of_absent absent]
  rfl

end Loop

section Update

variable {acc : BchAccountingMem}

@[simp] theorem accountingModUsage_accounting (trans : BtreeTrans) (a : BkeyIAccounting) :
    (accountingModUsage trans a).c.accounting = trans.c.accounting := by
  unfold accountingModUsage
  dsimp only
  split_ifs
  all_goals try rfl
  split <;> rfl

theorem accountingModUsage_devDataType {trans : BtreeTrans} {a : BkeyIAccounting} {dev dt : Nat}
    {usage : BchDevUsageFull} (devKey : (bposToDiskAccountingPos a.p).type = BCH_DISK_ACCOUNTING_dev_data_type)
    (devIs : (bposToDiskAccountingPos a.p).devDataTypeDev.toNat = dev)
    (dtIs : (bposToDiskAccountingPos a.p).devDataTypeDataType.toNat = dt)
    (onDev : dev < trans.c.nrDevices) (present : trans.c.devUsage dev = some usage) :
    (accountingModUsage trans a).c.devUsage = Function.update trans.c.devUsage dev
      (some ⟨Function.update usage.d dt
        ⟨(usage.d dt).buckets + a.d.getD 0 0,(usage.d dt).sectors + a.d.getD 1 0,
          (usage.d dt).fragmented + a.d.getD 2 0⟩⟩) := by
  have found : bch2DevRcuNoerror trans.c dev = some usage := by rw [bch2DevRcuNoerror,if_pos onDev,present]
  unfold accountingModUsage
  dsimp only
  rw [devKey,if_neg (by decide),if_neg (by decide),if_pos rfl,devIs,found,dtIs]

theorem length_accountingAddCounters (v d : List UInt64) : (accountingAddCounters v d).length = v.length := by
  simp only [accountingAddCounters,List.length_append,List.length_zipWith,List.length_drop]
  omega

theorem getD_accountingAddCounters {v : List UInt64} (d : List UInt64) {i : Nat} (inside : i < v.length) :
    (accountingAddCounters v d).getD i 0 = v.getD i 0 + d.getD i 0 := by
  unfold accountingAddCounters
  by_cases short : i < d.length
  · simp [List.getD_eq_getElem?_getD,
      List.getElem?_append_left (show i < (List.zipWith (· + ·) v d).length by simp; omega),inside,short]
  · simp [List.getD_eq_getElem?_getD,
      List.getElem?_append_right (show (List.zipWith (· + ·) v d).length ≤ i by simp; omega),short]
    rw [show d.length + (i - min v.length d.length) = i by omega]

@[simp] theorem accountingMemEntryAdd_pos (e : AccountingMemEntry) (d : List UInt64) (gc : Bool) :
    (accountingMemEntryAdd e d gc).pos = e.pos := by
  unfold accountingMemEntryAdd
  split <;> rfl

@[simp] theorem accountingMemEntryAdd_v1_isSome (e : AccountingMemEntry) (d : List UInt64) (gc : Bool) :
    (accountingMemEntryAdd e d gc).v1.isSome = e.v1.isSome := by
  unfold accountingMemEntryAdd
  split <;> simp

theorem accountingMemInv_modify (inv : AccountingMemInv acc) (idx : Nat) (d : List UInt64) (gc : Bool) :
    AccountingMemInv { acc with k := acc.k.modify idx (accountingMemEntryAdd · d gc) } := by
  constructor
  · simp only [List.length_modify]
    apply inv.sorted.congr
    intro i inside
    rw [accountingEntries_of_lt (by simpa using inside),accountingEntries_of_lt inside,List.getElem_modify]
    split <;> simp
  · intro running e member
    obtain ⟨i,inside,rfl⟩ := List.mem_iff_getElem.mp member
    have old := inv.gcAllocated running _ (List.getElem_mem (by simpa using inside))
    rw [List.getElem_modify]
    split
    · simpa using old
    · exact old

theorem accountingMemEntryIsZero_iff (e : AccountingMemEntry) :
    accountingMemEntryIsZero e = true ↔ ∀ i < e.nrCounters, e.v0.getD i 0 = 0 ∧ ∀ v ∈ e.v1, v.getD i 0 = 0 := by
  rw [accountingMemEntryIsZero,List.all_eq_true]
  simp only [List.mem_range]
  refine forall_congr' fun i => forall_congr' fun _ => ?_
  cases e.v1 <;> simp

theorem nodup_pos_gc (inv : AccountingMemInv acc) :
    ((acc.k.filter fun e => !accountingMemEntryIsZero e).map (·.pos)).Nodup :=
  (nodup_pos_of_sorted inv.sorted).sublist ((List.filter_sublist).map _)

theorem mem_bch2AccountingMemGc (inv : AccountingMemInv acc) {e : AccountingMemEntry} :
    e ∈ (bch2AccountingMemGc acc).k ↔ e ∈ acc.k ∧ accountingMemEntryIsZero e = false := by
  rw [bch2AccountingMemGc,(accountingSort_spec (nodup_pos_gc inv)).2.mem_iff,List.mem_filter]
  simp

theorem accountingMemInv_gc (inv : AccountingMemInv acc) : AccountingMemInv (bch2AccountingMemGc acc) := by
  obtain ⟨sorted,_⟩ := accountingSort_spec (nodup_pos_gc inv)
  constructor
  · simpa [bch2AccountingMemGc] using sorted
  · intro running e member
    exact inv.gcAllocated running e ((mem_bch2AccountingMemGc inv).mp member).1

end Update

section Read

variable {acc : BchAccountingMem} {nr : Nat}

theorem bch2AccountingMemRead_of_mem (inv : AccountingMemInv acc) {e : AccountingMemEntry} (member : e ∈ acc.k) :
    bch2AccountingMemRead acc e.pos nr = (List.range nr).map fun i => if i < e.nrCounters then e.v0.getD i 0 else 0 := by
  obtain ⟨i,inside,rfl⟩ := List.mem_iff_getElem.mp member
  rw [bch2AccountingMemRead,accountingFind_of_mem inv.sorted inside,bch2AccountingMemReadCounters,if_pos inside,
    accountingEntries_of_lt inside]
  rfl

theorem bch2AccountingMemRead_of_absent {p : Bpos} (absent : ∀ e ∈ acc.k, e.pos ≠ p) :
    bch2AccountingMemRead acc p nr = List.replicate nr 0 := by
  rw [bch2AccountingMemRead,bch2AccountingMemReadCounters,if_neg (not_lt.mpr (accountingFind_of_absent absent))]

end Read

end Bcachefs
