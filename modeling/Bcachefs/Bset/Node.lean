import Bcachefs.Bkey.Cmp

namespace Bcachefs
open WordStream

-- struct bset_tree: where a bset lies in the node, in u64s from the node's start.
structure BsetTree where
  dataOffset : Nat
  endOffset : Nat
  deriving DecidableEq, Repr

-- offsetof(struct bset, _data) / sizeof(u64): seq, journal_seq, and flags with
-- version and u64s fill three u64s.
def btreeBkeyFirstOffset (t : BsetTree) : Nat := t.dataOffset + 3

-- struct btree as the lookup code reads it: the key at each u64 offset of the
-- node (__btree_node_offset_to_key) and the bsets, oldest first.
structure BtreeNode extends Btree where
  keyAt : Nat → BkeyPacked
  set : List BsetTree

def MAX_BSETS : Nat := 3

def KEY_TYPE_deleted : UInt8 := 0

def bkeyDeleted (k : BkeyPacked) : Bool := k.type == KEY_TYPE_deleted

def bkeyPNext (node : BtreeNode) (k : Nat) : Nat := k + (node.keyAt k).u64s.toNat

-- bkey_iter_cmp on the keys at offsets `l` and `r`: position, then deleted keys
-- first ((int) bkey_deleted(r) - (int) bkey_deleted(l), kept by its sign), then
-- the keys' addresses, which order as their offsets in the node.
def bkeyIterCmp (node : BtreeNode) (l r : Nat) : Ordering :=
  (bch2BkeyCmpPacked node.toBtree (node.keyAt l) (node.keyAt r)).then
    ((compare (bkeyDeleted (node.keyAt r)).toNat (bkeyDeleted (node.keyAt l)).toNat).then (cmpInt l r))

-- The offsets of the keys from `k` up to a bset's end `stop`, as a walk with
-- bkey_p_next visits them.
def bsetKeysFrom (node : BtreeNode) (k stop : Nat) : List Nat :=
  if _walking : k < stop ∧ 0 < (node.keyAt k).u64s.toNat then k :: bsetKeysFrom node (bkeyPNext node k) stop
  else []
termination_by stop - k
decreasing_by unfold bkeyPNext; omega

def bsetKeys (node : BtreeNode) (t : BsetTree) : List Nat := bsetKeysFrom node (btreeBkeyFirstOffset t) t.endOffset

-- The walk from `k` with bkey_p_next reaches `stop` exactly, every key at least
-- one u64 long.
inductive LandsOn (node : BtreeNode) : Nat → Nat → Prop
  | here (k : Nat) : LandsOn node k k
  | step (k stop : Nat) : 0 < (node.keyAt k).u64s.toNat → LandsOn node (bkeyPNext node k) stop → LandsOn node k stop

-- What a btree node guarantees of its keys: a valid format with nr_key_bits to
-- match, at most MAX_BSETS bsets laid out one after another inside the u16
-- offsets, each walked exactly to its end, and every key either packed in the
-- node's format or unpacked.
structure NodeValid (node : BtreeNode) : Prop where
  formatValid : bch2BkeyFormatInvalid node.format = .ok ()
  keyBits : node.nrKeyBits = bkeyFormatKeyBits node.format
  nsets : node.set.length ≤ MAX_BSETS
  lands : ∀ t ∈ node.set, LandsOn node (btreeBkeyFirstOffset t) t.endOffset
  inOrder : node.set.Pairwise (fun s t => s.endOffset ≤ t.dataOffset)
  fits : ∀ t ∈ node.set, t.endOffset < 2^16
  keys : ∀ t ∈ node.set, ∀ k ∈ bsetKeys node t,
    PackedWith node.format (node.keyAt k) ∨ (node.keyAt k).format = KEY_FORMAT_CURRENT

-- Each bset sorted by bkey_iter_cmp.
def BsetsSorted (node : BtreeNode) : Prop :=
  ∀ t ∈ node.set, (bsetKeys node t).IsChain (fun l r => bkeyIterCmp node l r ≠ .gt)

def InNode (node : BtreeNode) (k : Nat) : Prop := ∃ t ∈ node.set, k ∈ bsetKeys node t

section Walk

variable {node : BtreeNode}

theorem bsetKeysFrom_self (node : BtreeNode) (k : Nat) : bsetKeysFrom node k k = [] := by
  rw [bsetKeysFrom]
  simp

theorem LandsOn.le {k stop : Nat} (lands : LandsOn node k stop) : k ≤ stop := by
  induction lands with
  | here => exact Nat.le_refl _
  | step k stop long _ ih => unfold bkeyPNext at ih; omega

theorem bsetKeysFrom_of_lt {k stop : Nat} (lands : LandsOn node k stop) (short : k < stop) :
    bsetKeysFrom node k stop = k :: bsetKeysFrom node (bkeyPNext node k) stop ∧
      LandsOn node (bkeyPNext node k) stop := by
  cases lands with
  | here => omega
  | step _ _ long rest =>
    rw [bsetKeysFrom,dif_pos ⟨short,long⟩]
    exact ⟨rfl,rest⟩

theorem LandsOn.lt_next {k stop : Nat} (long : 0 < (node.keyAt k).u64s.toNat)
    (rest : LandsOn node (bkeyPNext node k) stop) : k < stop := by
  have after := rest.le
  unfold bkeyPNext at after
  omega

theorem mem_bsetKeysFrom {k stop j : Nat} (lands : LandsOn node k stop) (member : j ∈ bsetKeysFrom node k stop) :
    k ≤ j ∧ j < stop ∧ LandsOn node j stop := by
  induction lands with
  | here k => rw [bsetKeysFrom_self] at member; cases member
  | step k stop long rest ih =>
    rw [(bsetKeysFrom_of_lt (.step _ _ long rest) (LandsOn.lt_next long rest)).1] at member
    rcases List.mem_cons.mp member with rfl | later
    · exact ⟨Nat.le_refl _,LandsOn.lt_next long rest,.step _ _ long rest⟩
    · obtain ⟨after,below,landsJ⟩ := ih later
      unfold bkeyPNext at after
      exact ⟨by omega,below,landsJ⟩

theorem bsetKeysFrom_suffix {k stop j : Nat} (lands : LandsOn node k stop) (member : j ∈ bsetKeysFrom node k stop) :
    bsetKeysFrom node j stop <:+ bsetKeysFrom node k stop := by
  induction lands with
  | here k => rw [bsetKeysFrom_self] at member; cases member
  | step k stop long rest ih =>
    rw [(bsetKeysFrom_of_lt (.step _ _ long rest) (LandsOn.lt_next long rest)).1] at member ⊢
    rcases List.mem_cons.mp member with rfl | later
    · rw [(bsetKeysFrom_of_lt (.step _ _ long rest) (LandsOn.lt_next long rest)).1]
    · exact (ih later).trans (List.suffix_cons _ _)

theorem bsetKeysFrom_increasing {k stop : Nat} (lands : LandsOn node k stop) :
    (bsetKeysFrom node k stop).Pairwise (· < ·) := by
  induction lands with
  | here k => rw [bsetKeysFrom_self]; exact List.Pairwise.nil
  | step k stop long rest ih =>
    rw [(bsetKeysFrom_of_lt (.step _ _ long rest) (LandsOn.lt_next long rest)).1]
    refine List.pairwise_cons.mpr ⟨fun j member => ?_,ih⟩
    have after := (mem_bsetKeysFrom rest member).1
    unfold bkeyPNext at after
    omega

theorem bsetKeys_fits {node : BtreeNode} (valid : NodeValid node) {k : Nat} (inNode : InNode node k) :
    k < 2^16 := by
  obtain ⟨t,member,keyMember⟩ := inNode
  have below := (mem_bsetKeysFrom (valid.lands t member) keyMember).2.1
  have fits := valid.fits t member
  omega

end Walk

-- bkey_iter_cmp as one number: the position, then 1 for a key that is not
-- deleted, then the offset.
def iterRank (node : BtreeNode) (k : Nat) : Nat :=
  (bposRank (bkeyUnpackPos node.toBtree (node.keyAt k)) * 2 + (if bkeyDeleted (node.keyAt k) then 0 else 1)) *
    2^16 + k

theorem compare_deleted (l r : Bool) :
    compare r.toNat l.toNat = compare (if l then 0 else 1) (if r then 0 else 1) := by
  cases l <;> cases r <;> rfl

-- A key the comparisons read right: packed in the node's format or unpacked, at an
-- offset inside the node's u16 range.
def KeyReadable (node : BtreeNode) (k : Nat) : Prop :=
  (PackedWith node.format (node.keyAt k) ∨ (node.keyAt k).format = KEY_FORMAT_CURRENT) ∧ k < 2^16

theorem KeyReadable.of_inNode {node : BtreeNode} (valid : NodeValid node) {k : Nat} (inNode : InNode node k) :
    KeyReadable node k := by
  obtain ⟨t,member,keyMember⟩ := inNode
  exact ⟨valid.keys t member k keyMember,bsetKeys_fits valid ⟨t,member,keyMember⟩⟩

theorem bkeyIterCmp_eq_compare_of_readable {node : BtreeNode} (formatOk : bch2BkeyFormatInvalid node.format = .ok ())
    (keyBits : node.nrKeyBits = bkeyFormatKeyBits node.format) {l r : Nat} (readL : KeyReadable node l)
    (readR : KeyReadable node r) : bkeyIterCmp node l r = compare (iterRank node l) (iterRank node r) := by
  have positions := bch2BkeyCmpPacked_pos formatOk node.toBtree rfl keyBits readL.1 readR.1
  have deleted := compare_mul_add 1 (a := bposRank (bkeyUnpackPos node.toBtree (node.keyAt l)))
    (b := bposRank (bkeyUnpackPos node.toBtree (node.keyAt r)))
    (c := if bkeyDeleted (node.keyAt l) then 0 else 1) (d := if bkeyDeleted (node.keyAt r) then 0 else 1)
    (by split <;> decide) (by split <;> decide)
  rw [pow_one] at deleted
  rw [bkeyIterCmp,iterRank,iterRank,compare_mul_add 16 readL.2 readR.2,deleted,
    positions,bposCmp_eq_compare,compare_deleted,cmpInt,Ordering.then_assoc]

theorem bkeyIterCmp_eq_compare {node : BtreeNode} (valid : NodeValid node) {l r : Nat} (inL : InNode node l)
    (inR : InNode node r) : bkeyIterCmp node l r = compare (iterRank node l) (iterRank node r) :=
  bkeyIterCmp_eq_compare_of_readable valid.formatValid valid.keyBits (.of_inNode valid inL) (.of_inNode valid inR)

theorem iterRank_inj {node : BtreeNode} (valid : NodeValid node) {l r : Nat} (inL : InNode node l)
    (inR : InNode node r) (same : iterRank node l = iterRank node r) : l = r := by
  have fitsL := bsetKeys_fits valid inL
  have fitsR := bsetKeys_fits valid inR
  unfold iterRank at same
  omega

theorem bsetKeys_disjoint {node : BtreeNode} (valid : NodeValid node) {s t : BsetTree} (sMem : s ∈ node.set)
    (tMem : t ∈ node.set) (apart : s.endOffset ≠ t.endOffset) : (bsetKeys node s).Disjoint (bsetKeys node t) := by
  have symmetric : Std.Symm (fun s t : BsetTree => s.endOffset ≤ t.dataOffset ∨ t.endOffset ≤ s.dataOffset) :=
    ⟨fun _ _ before => before.symm⟩
  have either : node.set.Pairwise (fun s t : BsetTree => s.endOffset ≤ t.dataOffset ∨ t.endOffset ≤ s.dataOffset) :=
    valid.inOrder.imp Or.inl
  have order := either.forall sMem tMem (fun same => apart (by rw [same]))
  intro k inS inT
  have rangeS := mem_bsetKeysFrom (valid.lands s sMem) inS
  have rangeT := mem_bsetKeysFrom (valid.lands t tMem) inT
  unfold btreeBkeyFirstOffset at rangeS rangeT
  omega

theorem bset_ends_nodup {node : BtreeNode} (valid : NodeValid node) : (node.set.map (·.endOffset)).Nodup := by
  rw [List.Nodup,List.pairwise_map]
  refine valid.inOrder.imp_of_mem fun _ tMem before => ?_
  have reach := (valid.lands _ tMem).le
  unfold btreeBkeyFirstOffset at reach
  omega

end Bcachefs
