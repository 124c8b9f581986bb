import Mathlib
import Bcachefs.Accounting.Ledger

namespace Bcachefs

-- bch2_accounting_trans_commit_hook; skip is BCH_TRANS_COMMIT_skip_accounting_apply
-- in the commit flags. The version it stamps on the key is read by nothing here.
def bch2AccountingTransCommitHook (marked : Bpos → Bool) (fuel : Nat) (alloc : Bool) (trans : BtreeTrans)
    (a : BkeyIAccounting) (skip : Bool) : Option (Except AccountingErr Unit × BtreeTrans) :=
  if !skip then bch2AccountingMemModLocked marked fuel alloc trans a .normal else some (.ok (), trans)

-- bch2_accounting_trans_commit_revert: the negated key in normal mode, its error dropped.
def bch2AccountingTransCommitRevert (marked : Bpos → Bool) (fuel : Nat) (alloc : Bool) (trans : BtreeTrans)
    (a : BkeyIAccounting) (skip : Bool) : Option BtreeTrans :=
  if !skip then (bch2AccountingMemModLocked marked fuel alloc trans (bch2AccountingNeg a) .normal).map (·.2)
  else some trans

-- The revert_fs_usage loop over the accounting keys from the i-th on; alloc i says
-- whether the allocations made for the i-th key succeed.
def revertFsUsage (marked : Bpos → Bool) (fuel : Nat) (alloc : Nat → Bool) (skip : Bool) :
    Nat → List BkeyIAccounting → BtreeTrans → Option BtreeTrans
  | _, [], tr => some tr
  | i, a :: rest, tr =>
    (bch2AccountingTransCommitRevert marked fuel (alloc i) tr a skip).bind
      (revertFsUsage marked fuel alloc skip (i + 1) rest)

-- The accounting loop of bch2_trans_commit_write_locked: the hook on each
-- accounting key in journal order, done holding the keys already applied; on the
-- first error, revert_fs_usage over those.
def commitAccountingFrom (marked : Bpos → Bool) (fuel : Nat) (alloc : Nat → Bool) (skip : Bool) :
    List BkeyIAccounting → List BkeyIAccounting → BtreeTrans → Option (Except AccountingErr Unit × BtreeTrans)
  | _, [], tr => some (.ok (), tr)
  | done, a :: rest, tr =>
    match bch2AccountingTransCommitHook marked fuel (alloc done.length) tr a skip with
    | none => none
    | some (.ok (), tr) => commitAccountingFrom marked fuel alloc skip (done ++ [a]) rest tr
    | some (.error e, tr) => (revertFsUsage marked fuel alloc skip 0 done tr).map fun tr => (.error e, tr)

def bch2TransCommitAccounting (marked : Bpos → Bool) (fuel : Nat) (alloc : Nat → Bool) (skip : Bool)
    (keys : List BkeyIAccounting) (trans : BtreeTrans) : Option (Except AccountingErr Unit × BtreeTrans) :=
  commitAccountingFrom marked fuel alloc skip [] keys trans

-- A dev_data_type key whose entry cannot be allocated: the commit fails with no
-- key before it to revert, and the table is as it was, but the device's usage
-- keeps the key's counters, added before the lookup.
theorem commit_accounting_enomem_keeps_dev_usage (marked : Bpos → Bool) (fuel : Nat) (alloc : Nat → Bool)
    (trans : BtreeTrans) (a : BkeyIAccounting) {dev dt : Nat} (usage : BchDevUsageFull)
    (devKey : (bposToDiskAccountingPos a.p).type = BCH_DISK_ACCOUNTING_dev_data_type)
    (devIs : (bposToDiskAccountingPos a.p).devDataTypeDev.toNat = dev)
    (dtIs : (bposToDiskAccountingPos a.p).devDataTypeDataType.toNat = dt)
    (onDev : dev < trans.c.nrDevices) (present : trans.c.devUsage dev = some usage)
    (absent : ∀ e ∈ trans.c.accounting.k, e.pos ≠ a.p) (noMem : alloc 0 = false) :
    ∃ trans', bch2TransCommitAccounting marked (fuel + 1) alloc false [a] trans =
        some (.error .enomemDiskAccounting, trans') ∧
      trans'.c.accounting = trans.c.accounting ∧
      (trans'.c.devUsage dev).map (·.d dt) = some ⟨(usage.d dt).buckets + a.d.getD 0 0,
        (usage.d dt).sectors + a.d.getD 1 0,(usage.d dt).fragmented + a.d.getD 2 0⟩ := by
  have isMem : bch2AccountingIsMem (bposToDiskAccountingPos a.p) = true := by
    rw [bch2AccountingIsMem,devKey]
    decide
  have notReplicas : accountingToReplicas a.p = false := by
    rw [accountingToReplicas,devKey]
    decide
  -- the usage is added first, then the insert fails
  have hook : bch2AccountingTransCommitHook marked (fuel + 1) false trans a false =
      some (.error .enomemDiskAccounting,
        { accountingModUsage trans a with c := { (accountingModUsage trans a).c with accounting := trans.c.accounting } }) := by
    rw [bch2AccountingTransCommitHook,if_pos (show (!false) = true from rfl),bch2AccountingMemModLocked]
    dsimp only
    rw [if_neg (by simp),if_neg (by simp [isMem]),if_pos rfl,accountingModUsage_accounting,
      accountingMemModLoop_enomem absent notReplicas fuel]
  refine ⟨{ accountingModUsage trans a with c := { (accountingModUsage trans a).c with accounting := trans.c.accounting } },
    ?_,rfl,?_⟩
  · rw [bch2TransCommitAccounting,commitAccountingFrom,List.length_nil,noMem,hook]
    rfl
  · rw [accountingModUsage_devDataType devKey devIs dtIs onDev present]
    simp

-- One user bucket of eight sectors on device 0, the device's first accounting
-- key of that type, with the allocation failing.
def devUserKey : BkeyIAccounting := ⟨⟨0x0300040000000000,0,0⟩,[1,8,0]⟩

def oneDevTrans : BtreeTrans :=
  ⟨⟨⟨[],false⟩,1,fun dev => if dev = 0 then some ⟨fun _ => ⟨0,0,0⟩⟩ else none⟩,⟨0,0,0,0⟩⟩

theorem commit_accounting_enomem_user_bucket :
    (bposToDiskAccountingPos devUserKey.p).type = BCH_DISK_ACCOUNTING_dev_data_type ∧
      (bposToDiskAccountingPos devUserKey.p).devDataTypeDev.toNat = 0 ∧
      (bposToDiskAccountingPos devUserKey.p).devDataTypeDataType.toNat = 4 ∧
      0 < oneDevTrans.c.nrDevices ∧ oneDevTrans.c.devUsage 0 = some ⟨fun _ => ⟨0,0,0⟩⟩ ∧
      (∀ e ∈ oneDevTrans.c.accounting.k, e.pos ≠ devUserKey.p) ∧
      ∃ trans', bch2TransCommitAccounting (fun _ => true) 1 (fun _ => false) false [devUserKey] oneDevTrans =
          some (.error .enomemDiskAccounting, trans') ∧
        trans'.c.accounting = oneDevTrans.c.accounting ∧
        (trans'.c.devUsage 0).map (·.d 4) = some ⟨1,8,0⟩ :=
  ⟨by decide,by decide,by decide,by decide,rfl,fun _ member => absurd member List.not_mem_nil,
    commit_accounting_enomem_keeps_dev_usage (fun _ => true) 0 (fun _ => false) oneDevTrans devUserKey
      ⟨fun _ => ⟨0,0,0⟩⟩ (by decide) (by decide) (by decide) (by decide) rfl
      (fun _ member => absurd member List.not_mem_nil) rfl⟩

end Bcachefs
