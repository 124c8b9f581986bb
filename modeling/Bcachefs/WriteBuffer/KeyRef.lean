import Bcachefs.Bkey.Cmp
import Bcachefs.Lib.HeapSort

namespace Bcachefs

open WordStream

-- struct wb_key_ref, read through its union as three words.
structure WbKeyRef where
  lo : UInt64
  mi : UInt64
  hi : UInt64
  deriving DecidableEq, Repr

-- The idx:24 bitfield, the low bits of lo on a little-endian machine.
def WbKeyRef.idx (r : WbKeyRef) : Nat := r.lo.toNat % 2^24

-- The ref as one 192-bit number, hi word first.
def wbKeyRefValue (r : WbKeyRef) : Nat := (r.hi.toNat * 2^64 + r.mi.toNat) * 2^64 + r.lo.toNat

-- A btree and a position as the bits of a ref above idx: the btree on top,
-- then the bytes of the bpos read as one number.
def wbSlotRank (s : Nat × Bpos) : Nat := s.1 * 2^160 + bposRank s.2

-- The ref bch2_btree_write_buffer_flush_locked builds for a key: idx:24, the
-- bytes of the bpos (snapshot, offset, inode) and btree:8, in that order from
-- the start, with lo, mi and hi laid over them.
def wbKeyRefOf (idx btree : Nat) (pos : Bpos) : WbKeyRef :=
  let v := wbSlotRank (btree % 2^8,pos) * 2^24 + idx % 2^24
  ⟨(v % 2^64).toUInt64,(v / 2^64 % 2^64).toUInt64,(v / 2^128).toUInt64⟩

-- __wb_key_ref_cmp: hi, mi, then lo as unsigned words; whether l >= r.
def rawWbKeyRefCmp (l r : WbKeyRef) : Bool :=
  (cmpInt l.hi r.hi).then ((cmpInt l.mi r.mi).then (cmpInt l.lo r.lo)) != .lt

-- wb_key_ref_cmp on x86-64: sub and two sbb take r from l over the three words,
-- and the result is the ae condition, that no borrow is left.
def wbKeyRefCmp (l r : WbKeyRef) : Bool := decide (wbKeyRefValue r ≤ wbKeyRefValue l)

-- wb_key_eq: the refs agree but for idx.
def wbKeyEq (l r : WbKeyRef) : Bool :=
  ((l.hi ^^^ r.hi) ||| (l.mi ^^^ r.mi) ||| ((l.lo >>> 24) ^^^ (r.lo >>> 24))) == 0

-- wb_sort: the bottom-up heapsort of lib/sort.c with wb_key_ref_cmp.
def wbSort (base : Nat → WbKeyRef) (num : Nat) : Nat → WbKeyRef := HeapSort.sort wbKeyRefCmp base num

section Encoding

theorem compare_wbSlotRank (s t : Nat × Bpos) :
    compare (wbSlotRank s) (wbSlotRank t) = (compare s.1 t.1).then (bposCmp s.2 t.2) := by
  rw [wbSlotRank,wbSlotRank,compare_mul_add 160 (bposRank_lt _) (bposRank_lt _),bposCmp_eq_compare]

theorem wbSlotRank_inj : Function.Injective wbSlotRank := by
  intro s t same
  have cmp : (compare s.1 t.1).then (bposCmp s.2 t.2) = .eq := by
    rw [← compare_wbSlotRank,same]; exact compare_eq_iff_eq.mpr rfl
  rw [Ordering.then_eq_eq,compare_eq_iff_eq,bposCmp_eq_compare,compare_eq_iff_eq] at cmp
  exact Prod.ext cmp.1 (bposRank_inj cmp.2)

theorem wbSlotRank_lt {s : Nat × Bpos} (small : s.1 < 2^8) : wbSlotRank s < 2^168 := by
  have := bposRank_lt s.2
  unfold wbSlotRank
  omega

theorem toNat_toUInt64 (n : Nat) : n.toUInt64.toNat = n % 2^64 := by
  rw [Nat.toUInt64_eq,UInt64.toNat_ofNat']

theorem wbKeyRefValue_of (idx btree : Nat) (pos : Bpos) :
    wbKeyRefValue (wbKeyRefOf idx btree pos) = wbSlotRank (btree % 2^8,pos) * 2^24 + idx % 2^24 := by
  have slot := wbSlotRank_lt (s := (btree % 2^8,pos)) (Nat.mod_lt _ (by decide))
  have low := Nat.mod_lt idx (show 0 < 2^24 by decide)
  simp only [wbKeyRefValue,wbKeyRefOf,toNat_toUInt64]
  omega

theorem idx_wbKeyRefOf (idx btree : Nat) (pos : Bpos) : (wbKeyRefOf idx btree pos).idx = idx % 2^24 := by
  simp only [WbKeyRef.idx,wbKeyRefOf,toNat_toUInt64]
  omega

-- Both versions of wb_key_ref_cmp agree: this is the EBUG_ON beside the asm.
theorem rawWbKeyRefCmp_eq_wbKeyRefCmp (l r : WbKeyRef) : rawWbKeyRefCmp l r = wbKeyRefCmp l r := by
  have words : compare (wbKeyRefValue l) (wbKeyRefValue r) =
      (cmpInt l.hi r.hi).then ((cmpInt l.mi r.mi).then (cmpInt l.lo r.lo)) := by
    rw [wbKeyRefValue,wbKeyRefValue,compare_mul_add 64 l.lo.toNat_lt r.lo.toNat_lt,
      compare_mul_add 64 l.mi.toNat_lt r.mi.toNat_lt,Ordering.then_assoc,cmpInt,cmpInt,cmpInt,compare_uint64,
      compare_uint64,compare_uint64]
  rw [rawWbKeyRefCmp,wbKeyRefCmp,← words]
  by_cases below : wbKeyRefValue l < wbKeyRefValue r
  · simp [Nat.compare_eq_lt.mpr below,Nat.not_le.mpr below]
  · have notLt : compare (wbKeyRefValue l) (wbKeyRefValue r) ≠ .lt := fun lt => below (Nat.compare_eq_lt.mp lt)
    simp [notLt,Nat.not_lt.mp below]

theorem wbKeyEq_iff (l r : WbKeyRef) :
    wbKeyEq l r = true ↔ l.hi.toNat = r.hi.toNat ∧ l.mi.toNat = r.mi.toNat ∧ l.lo.toNat / 2^24 = r.lo.toNat / 2^24 := by
  simp only [wbKeyEq,beq_iff_eq,← UInt64.toNat_inj,UInt64.toNat_or,UInt64.toNat_xor,UInt64.toNat_shiftRight,
    UInt64.toNat_zero,Nat.or_eq_zero_iff,Nat.xor_eq_zero_iff,Nat.shiftRight_eq_div_pow]
  simp [and_assoc]

theorem wbKeyEq_of (i j : Nat) {b c : Nat} (bLt : b < 2^8) (cLt : c < 2^8) (p q : Bpos) :
    wbKeyEq (wbKeyRefOf i b p) (wbKeyRefOf j c q) = true ↔ (b,p) = (c,q) := by
  have rankB := wbSlotRank_lt (s := (b,p)) bLt
  have rankC := wbSlotRank_lt (s := (c,q)) cLt
  have lowI := Nat.mod_lt i (show 0 < 2^24 by decide)
  have lowJ := Nat.mod_lt j (show 0 < 2^24 by decide)
  rw [wbKeyEq_iff,← wbSlotRank_inj.eq_iff]
  simp only [wbKeyRefOf,toNat_toUInt64,Nat.mod_eq_of_lt bLt,Nat.mod_eq_of_lt cLt]
  omega

theorem wbSort_spec (base : Nat → WbKeyRef) (num : Nat) :
    (∀ i j, i ≤ j → j < num → wbKeyRefValue (wbSort base num i) ≤ wbKeyRefValue (wbSort base num j)) ∧
      ∃ σ : Equiv.Perm ℕ, (∀ y, num ≤ y → σ y = y) ∧ wbSort base num = base ∘ σ :=
  HeapSort.sort_spec base num

end Encoding

end Bcachefs
