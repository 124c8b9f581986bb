import Mathlib
import Bcachefs.Accounting.Mem
import Bcachefs.Lib.Loop

namespace Bcachefs
open Eytzinger Loop

-- What c->accounting is for: for each position with an entry, its number of
-- counters and every delta applied to it since the entry was inserted, those
-- applied in gc mode kept apart while gc runs.
structure AccountingLedger where
  nrCounters : Nat
  deltas : List (List UInt64)
  gcDeltas : Option (List (List UInt64))
  deriving DecidableEq, Repr

-- Counter i of a history: the sum mod 2^64 of counter i of every delta.
def sumDeltas (nr : Nat) (ds : List (List UInt64)) : List UInt64 :=
  (List.range nr).map fun i => (ds.map fun d => d.getD i 0).sum

def AccountingLedger.new (a : BkeyIAccounting) (gcRunning : Bool) : AccountingLedger :=
  ⟨a.d.length, [], if gcRunning then some [] else none⟩

def AccountingLedger.record (l : AccountingLedger) (d : List UInt64) (gc : Bool) : AccountingLedger :=
  if gc then { l with gcDeltas := l.gcDeltas.map (· ++ [d]) } else { l with deltas := l.deltas ++ [d] }

-- Every counter of the position adds up to zero.
def AccountingLedger.IsZero (l : AccountingLedger) : Prop :=
  ∀ i < l.nrCounters, (l.deltas.map fun d => d.getD i 0).sum = 0 ∧
    ∀ gcDeltas ∈ l.gcDeltas, (gcDeltas.map fun d => d.getD i 0).sum = 0

instance (l : AccountingLedger) : Decidable l.IsZero :=
  inferInstanceAs (Decidable (∀ i < l.nrCounters, (l.deltas.map fun d => d.getD i 0).sum = 0 ∧
    ∀ gcDeltas ∈ l.gcDeltas, (gcDeltas.map fun d => d.getD i 0).sum = 0))

-- bch2_accounting_mem_insert on the ledger: a position without a history gets an
-- empty one, unless its replicas entry is not marked or the allocation fails.
def ledgerMemInsert (marked : Bpos → Bool) (gcRunning : Bool) (ledger : Bpos → Option AccountingLedger)
    (a : BkeyIAccounting) (mode : BchAccountingMode) (alloc : Bool) :
    Except AccountingErr (Bpos → Option AccountingLedger) :=
  if mode ≠ .read ∧ accountingToReplicas a.p = true ∧ marked a.p = false then .error .btreeInsertNeedMarkReplicas
  else if (ledger a.p).isSome then .ok ledger
  else if alloc then .ok (Function.update ledger a.p (some (AccountingLedger.new a gcRunning)))
  else .error .enomemDiskAccounting

-- bch2_accounting_mem_mod_locked on the ledger: the key's counters join the
-- history of its position, which is first inserted if it has none.
def ledgerMemModLocked (marked : Bpos → Bool) (gcRunning : Bool) (ledger : Bpos → Option AccountingLedger)
    (a : BkeyIAccounting) (mode : BchAccountingMode) (alloc : Bool) :
    Except AccountingErr (Bpos → Option AccountingLedger) :=
  if mode == .gc && !gcRunning then .ok ledger
  else if !bch2AccountingIsMem (bposToDiskAccountingPos a.p) then .ok ledger
  else
    match (if (ledger a.p).isSome then .ok ledger else ledgerMemInsert marked gcRunning ledger a mode alloc) with
    | .error e => .error e
    | .ok ledger => .ok (Function.update ledger a.p ((ledger a.p).map (·.record a.d (mode == .gc))))

-- bch2_accounting_mem_gc on the ledger: the positions whose counters all add up
-- to zero lose their history.
def ledgerMemGc (ledger : Bpos → Option AccountingLedger) : Bpos → Option AccountingLedger :=
  fun p => (ledger p).filter fun l => !decide l.IsZero

-- An entry holds a history: the same number of counters, each the sum of its deltas.
def AccountingLedger.Holds (l : AccountingLedger) (e : AccountingMemEntry) : Prop :=
  e.nrCounters = l.nrCounters ∧ e.v0 = sumDeltas l.nrCounters l.deltas ∧
    e.v1 = l.gcDeltas.map (sumDeltas l.nrCounters)

-- The table holds the ledger: each entry the history of its position, and an
-- entry for every position with a history.
structure AccountingRefines (k : List AccountingMemEntry) (ledger : Bpos → Option AccountingLedger) : Prop where
  entries : ∀ e ∈ k, ∃ l, ledger e.pos = some l ∧ l.Holds e
  covered : ∀ p l, ledger p = some l → ∃ e ∈ k, e.pos = p

-- A table that keeps the invariant, with the ledger's gc state, holding the ledger.
structure AccountingSim (gcRunning : Bool) (acc : BchAccountingMem) (ledger : Bpos → Option AccountingLedger) :
    Prop where
  inv : AccountingMemInv acc
  sameGc : acc.gcRunning = gcRunning
  refines : AccountingRefines acc.k ledger

section Sums

theorem ext_getD_zero {l m : List UInt64} (sameLength : l.length = m.length)
    (same : ∀ i, i < l.length → l.getD i 0 = m.getD i 0) : l = m := by
  apply List.ext_getElem sameLength
  intro i inside inside'
  have atI := same i inside
  rwa [List.getD_eq_getElem _ _ inside,List.getD_eq_getElem _ _ inside'] at atI

@[simp] theorem length_sumDeltas (nr : Nat) (ds : List (List UInt64)) : (sumDeltas nr ds).length = nr := by
  simp [sumDeltas]

theorem getD_sumDeltas {nr i : Nat} (ds : List (List UInt64)) (inside : i < nr) :
    (sumDeltas nr ds).getD i 0 = (ds.map fun d => d.getD i 0).sum := by
  simp [sumDeltas,List.getD_eq_getElem?_getD,inside]

theorem sumDeltas_nil (nr : Nat) : sumDeltas nr [] = List.replicate nr 0 := by
  apply ext_getD_zero (by simp)
  intro i inside
  rw [length_sumDeltas] at inside
  rw [getD_sumDeltas _ inside]
  simp [List.getD_eq_getElem?_getD,inside]

-- Adding a key's counters to an entry is recording the key in its history.
theorem accountingAddCounters_sumDeltas (nr : Nat) (ds : List (List UInt64)) (d : List UInt64) :
    accountingAddCounters (sumDeltas nr ds) d = sumDeltas nr (ds ++ [d]) := by
  apply ext_getD_zero (by simp [length_accountingAddCounters])
  intro i inside
  rw [length_accountingAddCounters,length_sumDeltas] at inside
  rw [getD_accountingAddCounters d (by simpa using inside),getD_sumDeltas _ inside,getD_sumDeltas _ inside]
  simp

theorem sumDeltas_eq_replicate_iff {nr : Nat} {ds : List (List UInt64)} :
    sumDeltas nr ds = List.replicate nr 0 ↔ ∀ i < nr, (ds.map fun d => d.getD i 0).sum = 0 := by
  constructor
  · intro zero i inside
    rw [← getD_sumDeltas ds inside,zero]
    simp [List.getD_eq_getElem?_getD,inside]
  · intro zero
    apply ext_getD_zero (by simp)
    intro i inside
    rw [length_sumDeltas] at inside
    rw [getD_sumDeltas _ inside,zero i inside]
    simp [List.getD_eq_getElem?_getD,inside]

end Sums

section Holds

variable {l : AccountingLedger} {e : AccountingMemEntry}

theorem AccountingLedger.holds_new (a : BkeyIAccounting) (gcRunning : Bool) :
    (AccountingLedger.new a gcRunning).Holds (accountingMemEntryNew a gcRunning) := by
  refine ⟨rfl,(sumDeltas_nil _).symm,?_⟩
  cases gcRunning <;> simp [accountingMemEntryNew,AccountingLedger.new,sumDeltas_nil]

theorem AccountingLedger.Holds.record (holds : l.Holds e) (d : List UInt64) (gc : Bool) :
    (l.record d gc).Holds (accountingMemEntryAdd e d gc) := by
  obtain ⟨sameNr,v0Sum,v1Sum⟩ := holds
  cases gc with
  | false =>
    refine ⟨sameNr,?_,v1Sum⟩
    simp [accountingMemEntryAdd,AccountingLedger.record,v0Sum,accountingAddCounters_sumDeltas]
  | true =>
    refine ⟨sameNr,v0Sum,?_⟩
    simp [accountingMemEntryAdd,AccountingLedger.record,v1Sum,Option.map_map,Function.comp_def,
      accountingAddCounters_sumDeltas]

-- The code's test for an entry gc may drop is the history adding up to zero.
theorem AccountingLedger.Holds.isZero_iff (holds : l.Holds e) : accountingMemEntryIsZero e = true ↔ l.IsZero := by
  obtain ⟨sameNr,v0Sum,v1Sum⟩ := holds
  rw [accountingMemEntryIsZero,AccountingLedger.IsZero,sameNr,v0Sum,v1Sum,List.all_eq_true]
  simp only [List.mem_range]
  refine forall_congr' fun i => forall_congr' fun inside => ?_
  rw [getD_sumDeltas _ inside]
  cases l.gcDeltas with
  | none => simp
  | some gcDeltas =>
    simp only [Option.map_some,Option.all_some]
    rw [getD_sumDeltas _ inside]
    simp

end Holds

section Refines

variable {k k' : List AccountingMemEntry} {ledger : Bpos → Option AccountingLedger}

theorem AccountingRefines.present_iff (holds : AccountingRefines k ledger) {p : Bpos} :
    (∃ e ∈ k, e.pos = p) ↔ (ledger p).isSome := by
  constructor
  · rintro ⟨e,member,rfl⟩
    obtain ⟨l,hl,_⟩ := holds.entries e member
    simp [hl]
  · intro present
    obtain ⟨l,hl⟩ := Option.isSome_iff_exists.mp present
    exact holds.covered p l hl

theorem AccountingRefines.perm (holds : AccountingRefines k ledger) (perm : k'.Perm k) : AccountingRefines k' ledger where
  entries e member := holds.entries e (perm.mem_iff.mp member)
  covered p l hl := by
    obtain ⟨e,member,same⟩ := holds.covered p l hl
    exact ⟨e,perm.mem_iff.mpr member,same⟩

theorem AccountingRefines.append_new (holds : AccountingRefines k ledger) {a : BkeyIAccounting}
    (absent : ledger a.p = none) (gcRunning : Bool) :
    AccountingRefines (k ++ [accountingMemEntryNew a gcRunning])
      (Function.update ledger a.p (some (AccountingLedger.new a gcRunning))) where
  entries e member := by
    rcases List.mem_append.mp member with old | new
    · obtain ⟨l,hl,agrees⟩ := holds.entries e old
      have other : e.pos ≠ a.p := by
        intro same
        rw [same,absent] at hl
        cases hl
      exact ⟨l,by rw [Function.update_of_ne other]; exact hl,agrees⟩
    · rw [List.mem_singleton.mp new]
      exact ⟨_,Function.update_self _ _ _,AccountingLedger.holds_new a gcRunning⟩
  covered p l hl := by
    by_cases here : p = a.p
    · exact ⟨_,List.mem_append_right _ (List.mem_singleton_self _),here.symm⟩
    · rw [Function.update_of_ne here] at hl
      obtain ⟨e,member,same⟩ := holds.covered p l hl
      exact ⟨e,List.mem_append_left _ member,same⟩

theorem AccountingRefines.modify (holds : AccountingRefines k ledger) (distinct : (k.map (·.pos)).Nodup)
    {idx : Nat} (inside : idx < k.length) {l : AccountingLedger} (hl : ledger k[idx].pos = some l)
    (d : List UInt64) (gc : Bool) :
    AccountingRefines (k.modify idx (accountingMemEntryAdd · d gc))
      (Function.update ledger k[idx].pos (some (l.record d gc))) := by
  obtain ⟨before,e,after,split,atIdx,modified⟩ := List.exists_of_modify (accountingMemEntryAdd · d gc) inside
  subst split
  subst atIdx
  have atE : (before ++ e :: after)[before.length] = e := by simp
  rw [modified]
  rw [atE] at hl ⊢
  have others : ∀ x ∈ before ++ after, x.pos ≠ e.pos := by
    rw [List.map_append,List.map_cons,List.nodup_middle,List.nodup_cons] at distinct
    intro x member same
    exact distinct.1 (by rw [← List.map_append,← same]; exact List.mem_map_of_mem member)
  have old : ∀ x, x ∈ before ∨ x ∈ after → x ∈ before ++ e :: after := by
    intro x member
    rcases member with inBefore | inAfter
    · simp [inBefore]
    · simp [inAfter]
  constructor
  · intro x member
    rcases List.mem_append.mp member with inBefore | inRest
    · obtain ⟨l',hl',agrees⟩ := holds.entries x (old x (.inl inBefore))
      exact ⟨l',by rw [Function.update_of_ne (others x (List.mem_append_left _ inBefore))]; exact hl',agrees⟩
    · rcases List.mem_cons.mp inRest with rfl | inAfter
      · obtain ⟨l',hl',agrees⟩ := holds.entries e (by simp)
        rw [hl] at hl'
        cases hl'
        exact ⟨_,by rw [accountingMemEntryAdd_pos,Function.update_self],agrees.record d gc⟩
      · obtain ⟨l',hl',agrees⟩ := holds.entries x (old x (.inr inAfter))
        exact ⟨l',by rw [Function.update_of_ne (others x (List.mem_append_right _ inAfter))]; exact hl',agrees⟩
  · intro p l' hl'
    by_cases here : p = e.pos
    · exact ⟨accountingMemEntryAdd e d gc,by simp,by rw [accountingMemEntryAdd_pos,here]⟩
    · rw [Function.update_of_ne here] at hl'
      obtain ⟨x,member,same⟩ := holds.covered p l' hl'
      have notE : x ≠ e := fun isE => here (by rw [← same,isE])
      have kept : x ∈ before ∨ x ∈ after := by
        rcases List.mem_append.mp member with inBefore | inRest
        · exact .inl inBefore
        · rcases List.mem_cons.mp inRest with isE | inAfter
          · exact absurd isE notE
          · exact .inr inAfter
      refine ⟨x,?_,same⟩
      rcases kept with inBefore | inAfter
      · simp [inBefore]
      · simp [inAfter]

theorem AccountingRefines.gc {acc : BchAccountingMem} (inv : AccountingMemInv acc)
    (holds : AccountingRefines acc.k ledger) : AccountingRefines (bch2AccountingMemGc acc).k (ledgerMemGc ledger) where
  entries e member := by
    obtain ⟨old,nonzero⟩ := (mem_bch2AccountingMemGc inv).mp member
    obtain ⟨l,hl,agrees⟩ := holds.entries e old
    have notZero : ¬ l.IsZero := fun zero => by
      rw [agrees.isZero_iff.mpr zero] at nonzero
      cases nonzero
    exact ⟨l,by simp [ledgerMemGc,hl,notZero],agrees⟩
  covered p l hl := by
    obtain ⟨kept,notZero⟩ := Option.filter_eq_some_iff.mp hl
    obtain ⟨e,member,rfl⟩ := holds.covered p l kept
    obtain ⟨l',hl',agrees⟩ := holds.entries e member
    rw [kept] at hl'
    cases hl'
    have nonzero : accountingMemEntryIsZero e = false := by
      cases zero : accountingMemEntryIsZero e with
      | false => rfl
      | true => simp [agrees.isZero_iff.mp zero] at notZero
    exact ⟨e,(mem_bch2AccountingMemGc inv).mpr ⟨member,nonzero⟩,rfl⟩

end Refines

section Steps

variable {marked : Bpos → Bool} {gcRunning : Bool} {acc : BchAccountingMem}
  {ledger : Bpos → Option AccountingLedger} {a : BkeyIAccounting} {mode : BchAccountingMode} {alloc : Bool}

theorem bch2AccountingMemInsert_refines (sim : AccountingSim gcRunning acc ledger) :
    ExceptRel (fun acc' ledger' => AccountingSim gcRunning acc' ledger' ∧ (ledger' a.p).isSome)
      (bch2AccountingMemInsert marked acc a mode alloc) (ledgerMemInsert marked gcRunning ledger a mode alloc) := by
  obtain ⟨inv,rfl,holds⟩ := sim
  unfold bch2AccountingMemInsert ledgerMemInsert
  by_cases unmarked : mode ≠ .read ∧ accountingToReplicas a.p = true ∧ marked a.p = false
  · rw [if_pos unmarked,if_pos unmarked]
    rfl
  rw [if_neg unmarked,if_neg unmarked]
  by_cases present : ∃ e ∈ acc.k, e.pos = a.p
  · have found := (accountingFind_lt_iff inv.sorted).mpr present
    have isSome := holds.present_iff.mp present
    rw [rawBch2AccountingMemInsert,if_pos found,if_pos isSome]
    exact ⟨⟨inv,rfl,holds⟩,isSome⟩
  · have absent : ∀ e ∈ acc.k, e.pos ≠ a.p := fun e member same => present ⟨e,member,same⟩
    have none : ledger a.p = none := by
      simpa using (not_congr holds.present_iff).mp present
    rw [rawBch2AccountingMemInsert_of_absent absent,if_neg (show ¬ (ledger a.p).isSome = true by simp [none])]
    cases alloc with
    | false => rfl
    | true =>
      refine ⟨⟨accountingMemInv_insert inv absent,rfl,?_⟩,by simp⟩
      exact (holds.append_new none acc.gcRunning).perm (accountingSort_spec (nodup_pos_insert inv absent)).2

theorem ensure_refines (sim : AccountingSim gcRunning acc ledger) :
    ExceptRel (fun acc' ledger' => AccountingSim gcRunning acc' ledger' ∧ (ledger' a.p).isSome)
      (if ∃ e ∈ acc.k, e.pos = a.p then .ok acc else bch2AccountingMemInsert marked acc a mode alloc)
      (if (ledger a.p).isSome then .ok ledger else ledgerMemInsert marked gcRunning ledger a mode alloc) := by
  by_cases present : ∃ e ∈ acc.k, e.pos = a.p
  · have isSome := sim.refines.present_iff.mp present
    rw [if_pos present,if_pos isSome]
    exact ⟨sim,isSome⟩
  · rw [if_neg present,if_neg (fun isSome => present (sim.refines.present_iff.mpr isSome))]
    exact bch2AccountingMemInsert_refines sim

theorem add_refines {acc' : BchAccountingMem} {ledger' : Bpos → Option AccountingLedger}
    (sim : AccountingSim gcRunning acc' ledger') (isSome : (ledger' a.p).isSome) (gc : Bool) :
    AccountingSim gcRunning { acc' with k := acc'.k.modify (accountingFind acc'.k a.p) (accountingMemEntryAdd · a.d gc) }
      (Function.update ledger' a.p ((ledger' a.p).map (·.record a.d gc))) := by
  obtain ⟨l,hl⟩ := Option.isSome_iff_exists.mp isSome
  have found := (accountingFind_lt_iff sim.inv.sorted).mpr (sim.refines.present_iff.mpr isSome)
  have atP : acc'.k[accountingFind acc'.k a.p].pos = a.p := by
    rw [← accountingEntries_of_lt found]
    exact accountingFind_found found
  refine ⟨accountingMemInv_modify sim.inv _ _ _,sim.sameGc,?_⟩
  have updated := sim.refines.modify (nodup_pos_of_sorted sim.inv.sorted) found (atP ▸ hl) a.d gc
  rw [atP] at updated
  rw [hl]
  exact updated

-- bch2_accounting_mem_mod_locked against the ledger: the same result, and the
-- table holds the ledger after it; two rounds of the loop are always enough.
theorem bch2AccountingMemModLocked_refines {trans : BtreeTrans} (sim : AccountingSim gcRunning trans.c.accounting ledger)
    (fuel : Nat) :
    ∃ trans', bch2AccountingMemModLocked marked (fuel + 2) alloc trans a mode =
        some ((ledgerMemModLocked marked gcRunning ledger a mode alloc).map (fun _ => ()), trans') ∧
      AccountingSim gcRunning trans'.c.accounting
        ((ledgerMemModLocked marked gcRunning ledger a mode alloc).toOption.getD ledger) := by
  have sameGc := sim.sameGc
  unfold bch2AccountingMemModLocked ledgerMemModLocked
  dsimp only
  rw [sameGc]
  by_cases skipGc : (mode == .gc && !gcRunning) = true
  · rw [if_pos skipGc,if_pos skipGc]
    exact ⟨trans,rfl,sim⟩
  rw [if_neg skipGc,if_neg skipGc]
  by_cases notMem : (!bch2AccountingIsMem (bposToDiskAccountingPos a.p)) = true
  · rw [if_pos notMem,if_pos notMem]
    exact ⟨trans,rfl,sim⟩
  rw [if_neg notMem,if_neg notMem]
  -- the usage switch leaves the table alone, and the loop inserts once at most
  have sameAcc : (if mode = .normal then accountingModUsage trans a else trans).c.accounting = trans.c.accounting := by
    split <;> simp
  rw [sameAcc,accountingMemModLoop_spec sim.inv]
  have agree := @ensure_refines marked gcRunning trans.c.accounting ledger a mode alloc sim
  revert agree
  cases (if ∃ e ∈ trans.c.accounting.k, e.pos = a.p then Except.ok trans.c.accounting
      else bch2AccountingMemInsert marked trans.c.accounting a mode alloc) with
  | error e =>
    cases (if (ledger a.p).isSome then Except.ok ledger else ledgerMemInsert marked gcRunning ledger a mode alloc) with
    | error e' =>
      rintro rfl
      exact ⟨_,rfl,sim⟩
    | ok _ => exact False.elim
  | ok acc' =>
    cases (if (ledger a.p).isSome then Except.ok ledger else ledgerMemInsert marked gcRunning ledger a mode alloc) with
    | error _ => exact False.elim
    | ok ledger' =>
      rintro ⟨sim',isSome⟩
      exact ⟨_,rfl,add_refines sim' isSome (mode == .gc)⟩

end Steps

-- The operations on the in-memory accounting: the commit, gc and mount paths'
-- bch2_accounting_mem_mod_locked, bch2_accounting_mem_insert and bch2_accounting_mem_gc,
-- with whether each one's allocations succeed.
inductive AccountingMemOp
  | memModLocked (a : BkeyIAccounting) (mode : BchAccountingMode) (alloc : Bool)
  | memInsert (a : BkeyIAccounting) (mode : BchAccountingMode) (alloc : Bool)
  | memGc
  deriving DecidableEq, Repr

-- An operation on the filesystem; a failed insert leaves the table as it was.
def accountingMemStep (marked : Bpos → Bool) (fuel : Nat) (trans : BtreeTrans) : AccountingMemOp → Option BtreeTrans
  | .memModLocked a mode alloc => (bch2AccountingMemModLocked marked fuel alloc trans a mode).map (·.2)
  | .memInsert a mode alloc =>
    some { trans with c := { trans.c with accounting :=
      (bch2AccountingMemInsert marked trans.c.accounting a mode alloc).toOption.getD trans.c.accounting } }
  | .memGc => some { trans with c := { trans.c with accounting := bch2AccountingMemGc trans.c.accounting } }

def accountingMemRun (marked : Bpos → Bool) (fuel : Nat) (trans : BtreeTrans) (ops : List AccountingMemOp) :
    Option BtreeTrans :=
  ops.foldlM (accountingMemStep marked fuel) trans

def ledgerStep (marked : Bpos → Bool) (gcRunning : Bool) (ledger : Bpos → Option AccountingLedger) :
    AccountingMemOp → Bpos → Option AccountingLedger
  | .memModLocked a mode alloc => (ledgerMemModLocked marked gcRunning ledger a mode alloc).toOption.getD ledger
  | .memInsert a mode alloc => (ledgerMemInsert marked gcRunning ledger a mode alloc).toOption.getD ledger
  | .memGc => ledgerMemGc ledger

def ledgerRun (marked : Bpos → Bool) (gcRunning : Bool) (ledger : Bpos → Option AccountingLedger)
    (ops : List AccountingMemOp) : Bpos → Option AccountingLedger :=
  ops.foldl (ledgerStep marked gcRunning) ledger

section Runs

variable {marked : Bpos → Bool} {gcRunning : Bool} {ledger : Bpos → Option AccountingLedger}

theorem accountingMemStep_refines {trans : BtreeTrans} (sim : AccountingSim gcRunning trans.c.accounting ledger)
    (fuel : Nat) (op : AccountingMemOp) :
    ∃ trans', accountingMemStep marked (fuel + 2) trans op = some trans' ∧
      AccountingSim gcRunning trans'.c.accounting (ledgerStep marked gcRunning ledger op) := by
  cases op with
  | memModLocked a mode alloc =>
    obtain ⟨trans',ran,sim'⟩ := @bch2AccountingMemModLocked_refines marked gcRunning ledger a mode alloc trans sim fuel
    exact ⟨trans',by rw [accountingMemStep,ran]; rfl,sim'⟩
  | memInsert a mode alloc =>
    refine ⟨_,rfl,?_⟩
    exact ((@bch2AccountingMemInsert_refines marked gcRunning trans.c.accounting ledger a mode alloc sim).mono
      fun _ _ both => both.1).getD sim
  | memGc =>
    exact ⟨_,rfl,⟨accountingMemInv_gc sim.inv,sim.sameGc,sim.refines.gc sim.inv⟩⟩

theorem accountingMemRun_refines {trans : BtreeTrans} (sim : AccountingSim gcRunning trans.c.accounting ledger)
    (fuel : Nat) (ops : List AccountingMemOp) :
    ∃ trans', accountingMemRun marked (fuel + 2) trans ops = some trans' ∧
      AccountingSim gcRunning trans'.c.accounting (ledgerRun marked gcRunning ledger ops) := by
  induction ops generalizing trans ledger with
  | nil => exact ⟨trans,rfl,sim⟩
  | cons op ops ih =>
    obtain ⟨trans₁,stepped,sim₁⟩ := @accountingMemStep_refines marked gcRunning ledger trans sim fuel op
    obtain ⟨trans',ran,sim'⟩ := ih sim₁
    refine ⟨trans',?_,sim'⟩
    rw [accountingMemRun,List.foldlM_cons,stepped]
    exact ran

theorem accounting_mem_ops_keep_order_and_sums (marked : Bpos → Bool) (fuel : Nat) (trans : BtreeTrans)
    (ledger : Bpos → Option AccountingLedger) (inv : AccountingMemInv trans.c.accounting)
    (holds : AccountingRefines trans.c.accounting.k ledger) (ops : List AccountingMemOp) :
    (∃ trans', accountingMemRun marked (fuel + 2) trans ops = some trans' ∧
      Sorted (fun e : AccountingMemEntry => bposRank e.pos) (accountingEntries trans'.c.accounting.k)
        trans'.c.accounting.k.length ∧
      (trans'.c.accounting.k.map (·.pos)).Nodup ∧
      AccountingRefines trans'.c.accounting.k (ledgerRun marked trans.c.accounting.gcRunning ledger ops)) ∧
    ∀ acc : BchAccountingMem, AccountingMemInv acc → ∀ e, e ∈ (bch2AccountingMemGc acc).k ↔
      e ∈ acc.k ∧ ¬ ∀ i < e.nrCounters, e.v0.getD i 0 = 0 ∧ ∀ v ∈ e.v1, v.getD i 0 = 0 := by
  constructor
  · obtain ⟨trans',ran,sim'⟩ := @accountingMemRun_refines marked _ ledger trans ⟨inv,rfl,holds⟩ fuel ops
    exact ⟨trans',ran,sim'.inv.sorted,nodup_pos_of_sorted sim'.inv.sorted,sim'.refines⟩
  · intro acc accInv e
    rw [mem_bch2AccountingMemGc accInv,← accountingMemEntryIsZero_iff]
    simp

-- The table at mount, before any key is read in.
def emptyAccountingTrans : BtreeTrans := ⟨⟨⟨[],false⟩,0,fun _ => none⟩,⟨0,0,0,0⟩⟩

theorem emptyAccounting_inv : AccountingMemInv emptyAccountingTrans.c.accounting :=
  ⟨fun _ _ _ inside => absurd inside (Nat.not_lt_zero _),fun _ _ member => absurd member List.not_mem_nil⟩

theorem emptyAccounting_holds : AccountingRefines emptyAccountingTrans.c.accounting.k (fun _ => none) :=
  ⟨fun _ member => absurd member List.not_mem_nil,fun _ _ none => by cases none⟩

theorem accounting_mem_ops_from_empty :
    AccountingMemInv emptyAccountingTrans.c.accounting ∧
      AccountingRefines emptyAccountingTrans.c.accounting.k (fun _ => none) ∧
      ((∃ trans', accountingMemRun (fun _ => true) 2 emptyAccountingTrans
          [.memModLocked ⟨⟨0,0,0⟩,[1]⟩ .read true,.memGc] = some trans' ∧
        Sorted (fun e : AccountingMemEntry => bposRank e.pos) (accountingEntries trans'.c.accounting.k)
          trans'.c.accounting.k.length ∧
        (trans'.c.accounting.k.map (·.pos)).Nodup ∧
        AccountingRefines trans'.c.accounting.k (ledgerRun (fun _ => true) false (fun _ => none)
          [.memModLocked ⟨⟨0,0,0⟩,[1]⟩ .read true,.memGc])) ∧
      ∀ acc : BchAccountingMem, AccountingMemInv acc → ∀ e, e ∈ (bch2AccountingMemGc acc).k ↔
        e ∈ acc.k ∧ ¬ ∀ i < e.nrCounters, e.v0.getD i 0 = 0 ∧ ∀ v ∈ e.v1, v.getD i 0 = 0) :=
  ⟨emptyAccounting_inv,emptyAccounting_holds,
    accounting_mem_ops_keep_order_and_sums (fun _ => true) 0 emptyAccountingTrans (fun _ => none)
      emptyAccounting_inv emptyAccounting_holds [.memModLocked ⟨⟨0,0,0⟩,[1]⟩ .read true,.memGc]⟩

end Runs

end Bcachefs
