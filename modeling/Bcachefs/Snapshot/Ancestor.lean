import Bcachefs.Lib.Chain
import Bcachefs.Lib.Loop

namespace Bcachefs
open Loop Relation

-- enum snapshot_id_state
inductive SnapshotIdState where
  | empty
  | live
  | deleted
  deriving DecidableEq, Repr

-- struct snapshot_t. is_ancestor is the 128-bit bitmap: bit i stands for the
-- id i + 1 above this one.
structure SnapshotT where
  state : SnapshotIdState
  parent : UInt32
  skip : UInt32 × UInt32 × UInt32
  depth : UInt32
  children : UInt32 × UInt32
  subvol : UInt32
  tree : UInt32
  isAncestor : Nat
  deriving DecidableEq, Repr

-- A slot as memset leaves it.
def snapshotTZero : SnapshotT := ⟨.empty,0,(0,0,0),0,(0,0),0,0,0⟩

-- struct bch_snapshot. hasDepth says the value reaches its depth and skip
-- fields: bkey_val_bytes(s.k) > offsetof(struct bch_snapshot, depth).
structure BchSnapshot where
  flags : UInt32
  parent : UInt32
  children : UInt32 × UInt32
  subvol : UInt32
  tree : UInt32
  depth : UInt32
  skip : UInt32 × UInt32 × UInt32
  hasDepth : Bool
  deriving DecidableEq, Repr

def BCH_SNAPSHOT_SUBVOL (s : BchSnapshot) : Bool := s.flags &&& 2 != 0

def BCH_SNAPSHOT_DELETED (s : BchSnapshot) : Bool := s.flags &&& 4 != 0

-- c->snapshots by id. __snapshot_t is NULL past the table; a slot inside it
-- that was never marked is zeroed, and every reader here treats the two alike.
abbrev SnapshotTable := UInt32 → Option SnapshotT

def IS_ANCESTOR_BITMAP : Nat := 128

-- __bch2_snapshot_parent_early
def snapshotParentEarly (t : SnapshotTable) (id : UInt32) : UInt32 := ((t id).map (·.parent)).getD 0

-- A walk over u32 ids that ends does so within 2^32 passes, as no id repeats on it.
def SNAPSHOT_ID_FUEL : Nat := 2^32 + 1

-- One pass of the loop of __bch2_snapshot_is_ancestor_early.
def isAncestorEarlyStep (t : SnapshotTable) (ancestor id : UInt32) : Step UInt32 Bool Empty :=
  if id ≠ 0 ∧ id < ancestor then .next (snapshotParentEarly t id) else .done (id == ancestor)

-- __bch2_snapshot_is_ancestor_early; none where the walk never ends.
def bch2SnapshotIsAncestorEarly (t : SnapshotTable) (id ancestor : UInt32) : Option (Except Empty Bool) :=
  run (isAncestorEarlyStep t ancestor) SNAPSHOT_ID_FUEL id

-- get_ancestor_below: the highest skip entry not above the target, else the parent.
def getAncestorBelow (t : SnapshotTable) (id ancestor : UInt32) : UInt32 :=
  match t id with
  | none => 0
  | some s =>
    if s.skip.2.2 ≤ ancestor then s.skip.2.2
    else if s.skip.2.1 ≤ ancestor then s.skip.2.1
    else if s.skip.1 ≤ ancestor then s.skip.1
    else s.parent

def testAncestorBitmap (t : SnapshotTable) (id ancestor : UInt32) : Bool :=
  match t id with
  | none => false
  | some s => s.isAncestor.testBit (ancestor - id - 1).toNat

-- One pass of the descent of __bch2_snapshot_is_ancestor; its stop is the
-- bitmap test, or the comparison where the descent passed the target.
def isAncestorStep (t : SnapshotTable) (ancestor id : UInt32) : Step UInt32 Bool Empty :=
  if IS_ANCESTOR_BITMAP ≤ ancestor.toNat ∧ id ≠ 0 ∧ id < ancestor - IS_ANCESTOR_BITMAP.toUInt32 then
    .next (getAncestorBelow t id ancestor)
  else .done (if id ≠ 0 ∧ id < ancestor then testAncestorBitmap t id ancestor else id == ancestor)

-- __bch2_snapshot_is_ancestor; `early` is c->recovery_pass_done <
-- BCH_RECOVERY_PASS_check_snapshots.
def bch2SnapshotIsAncestor (early : Bool) (t : SnapshotTable) (id ancestor : UInt32) : Option (Except Empty Bool) :=
  if early then bch2SnapshotIsAncestorEarly t id ancestor
  else run (isAncestorStep t ancestor) SNAPSHOT_ID_FUEL id

-- One pass of the loop of __bch2_mark_snapshot that fills is_ancestor, walking
-- up from `id` in the table that already holds its new entry.
def markAncestorStep (t : SnapshotTable) (id : UInt32) (st : UInt32 × Nat) : Step (UInt32 × Nat) Nat Empty :=
  if snapshotParentEarly t st.1 ≠ 0 ∧ (snapshotParentEarly t st.1 - id - 1).toNat < IS_ANCESTOR_BITMAP then
    .next (snapshotParentEarly t st.1,st.2 ||| 2^(snapshotParentEarly t st.1 - id - 1).toNat)
  else .done st.2

-- The fields __bch2_mark_snapshot copies from the key; is_ancestor is kept.
def markedSnapshotT (old : SnapshotT) (s : BchSnapshot) : SnapshotT :=
  { old with
    state := if BCH_SNAPSHOT_DELETED s then .deleted else .live
    parent := s.parent
    children := s.children
    subvol := if BCH_SNAPSHOT_SUBVOL s then s.subvol else 0
    tree := s.tree
    depth := if s.hasDepth then s.depth else 0
    skip := if s.hasDepth then s.skip else (0,0,0) }

-- __bch2_mark_snapshot for the key at `id`: a snapshot key, or another key type.
-- The walk sets a new bit of the 128 at every pass, so a walk that ends makes at
-- most 128 of them; none is a walk that never ends.
def bch2MarkSnapshot (t : SnapshotTable) (id : UInt32) : Option BchSnapshot → Option SnapshotTable
  | none => some (Function.update t id (some snapshotTZero))
  | some s =>
    let entry := markedSnapshotT ((t id).getD snapshotTZero) s
    let t := Function.update t id (some entry)
    match run (markAncestorStep t id) (IS_ANCESTOR_BITMAP + 1) (id,entry.isAncestor) with
    | some (.ok bits) => some (Function.update t id (some { entry with isAncestor := bits }))
    | _ => none

-- bch2_snapshots_read: the snapshot keys from the highest id down, into an
-- empty table.
def bch2SnapshotsRead (keys : List (UInt32 × Option BchSnapshot)) : Option SnapshotTable :=
  keys.foldlM (fun t k => bch2MarkSnapshot t k.1 k.2) (fun _ => none)

-- The parent links of a table: a node with a nonzero parent points at it.
def SnapshotParentLink (t : SnapshotTable) (a b : UInt32) : Prop :=
  a ≠ 0 ∧ snapshotParentEarly t a = b ∧ b ≠ 0

-- What the ancestor tests are for: ancestor is id, or is reached from id by
-- following parent links.
def SnapshotReach (t : SnapshotTable) : UInt32 → UInt32 → Prop := ReflTransGen (SnapshotParentLink t)

-- Every node's parent lies above it, or is 0.
def ParentsAbove (t : SnapshotTable) : Prop := ∀ id, snapshotParentEarly t id = 0 ∨ id < snapshotParentEarly t id

-- Every bit of a node's is_ancestor bitmap says whether the id it stands for is
-- an ancestor.
def BitmapsExact (t : SnapshotTable) : Prop :=
  ∀ id s, id ≠ 0 → t id = some s → ∀ p, id < p → (p - id - 1).toNat < IS_ANCESTOR_BITMAP →
    (s.isAncestor.testBit (p - id - 1).toNat = true ↔ SnapshotReach t id p)

-- The skip entries as bch2_snapshot_skiplist_get chose them: 0 on a root, and
-- ancestors of the node above it otherwise.
def SkipsChosen (t : SnapshotTable) : Prop :=
  ∀ id s, t id = some s →
    (s.parent = 0 → s.skip = (0,0,0)) ∧
    (s.parent ≠ 0 → ∀ x ∈ [s.skip.1,s.skip.2.1,s.skip.2.2], SnapshotReach t id x ∧ x ≠ id)

section Reach
variable {t : SnapshotTable}

theorem parentLink_climbs (above : ParentsAbove t) : Chain.Climbs UInt32.toNat (SnapshotParentLink t) := by
  rintro a b ⟨_,rfl,nonzero⟩
  rcases above a with zero | up
  · exact absurd zero nonzero
  · exact UInt32.lt_iff_toNat_lt.mp up

theorem parentLink_unique : Relator.RightUnique (SnapshotParentLink t) := by
  rintro a b c ⟨_,rfl,_⟩ ⟨_,rfl,_⟩
  rfl

theorem reach_of_no_parent {a b : UInt32} (stuck : a = 0 ∨ snapshotParentEarly t a = 0) :
    SnapshotReach t a b ↔ a = b :=
  Chain.reach_of_no_step fun c ⟨nonzero,parent,positive⟩ => by
    rcases stuck with zero | zero
    · exact nonzero zero
    · exact positive (parent ▸ zero)

theorem reach_of_not_below (above : ParentsAbove t) {cur ancestor : UInt32}
    (stopped : ¬ (cur ≠ 0 ∧ cur < ancestor)) : SnapshotReach t cur ancestor ↔ cur = ancestor := by
  by_cases zero : cur = 0
  · exact reach_of_no_parent (.inl zero)
  · have passed : ancestor ≤ cur := UInt32.not_lt.mp fun below => stopped ⟨zero,below⟩
    refine ⟨fun reach => Chain.reach_eq_of_rank_le (parentLink_climbs above) reach ?_,fun same => same ▸ .refl⟩
    exact UInt32.le_iff_toNat_le.mp passed

theorem reach_parent_of_below {cur ancestor : UInt32}
    (walking : cur ≠ 0 ∧ cur < ancestor) :
    SnapshotReach t cur ancestor ↔ SnapshotReach t (snapshotParentEarly t cur) ancestor := by
  have apart : cur ≠ ancestor := UInt32.ne_of_lt walking.2
  by_cases zero : snapshotParentEarly t cur = 0
  · rw [reach_of_no_parent (.inr zero),zero,reach_of_no_parent (.inl rfl)]
    exact ⟨fun same => (apart same).elim,fun same => absurd (same ▸ walking.2) (UInt32.not_lt.mpr UInt32.zero_le)⟩
  · exact (Chain.reach_step_iff parentLink_unique ⟨walking.1,rfl,zero⟩).trans
      ⟨fun reach => reach.resolve_left apart,.inr⟩

theorem reach_jump (above : ParentsAbove t) {cur x ancestor : UInt32} (toX : SnapshotReach t cur x)
    (le : x ≤ ancestor) : SnapshotReach t cur ancestor ↔ SnapshotReach t x ancestor :=
  ⟨fun reach => Chain.reach_between (parentLink_climbs above) parentLink_unique toX reach
      (UInt32.le_iff_toNat_le.mp le),
    toX.trans⟩

theorem lt_of_reach_ne (above : ParentsAbove t) {a b : UInt32} (reach : SnapshotReach t a b) (apart : b ≠ a) :
    a < b := by
  have le := Chain.reach_rank_le (parentLink_climbs above) reach
  have ne : a.toNat ≠ b.toNat := fun same => apart (UInt32.toNat_inj.mp same).symm
  exact UInt32.lt_iff_toNat_lt.mpr (by omega)

theorem parent_le_of_reach (above : ParentsAbove t) {id cur p : UInt32} (toCur : SnapshotReach t id cur)
    (toP : SnapshotReach t id p) (past : cur < p) :
    snapshotParentEarly t cur ≠ 0 ∧ snapshotParentEarly t cur ≤ p := by
  have onward : SnapshotReach t cur p :=
    Chain.reach_between (parentLink_climbs above) parentLink_unique toCur toP
      (Nat.le_of_lt (UInt32.lt_iff_toNat_lt.mp past))
  rcases onward.cases_head with same | ⟨q,⟨_,parent,nonzero⟩,rest⟩
  · exact absurd same (UInt32.ne_of_lt past)
  · subst parent
    refine ⟨nonzero,UInt32.le_iff_toNat_le.mpr (Chain.reach_rank_le (parentLink_climbs above) rest)⟩

end Reach

section Walks
variable {t : SnapshotTable}

-- How far a walk may still climb towards `ancestor`; every pass lowers it.
def snapshotWalkMeasure (ancestor cur : UInt32) : Nat := if cur = 0 then 0 else ancestor.toNat + 1 - cur.toNat

theorem snapshotWalkMeasure_lt (ancestor : UInt32) {cur next : UInt32} (walking : cur ≠ 0 ∧ cur < ancestor)
    (climbs : next = 0 ∨ cur < next) : snapshotWalkMeasure ancestor next < snapshotWalkMeasure ancestor cur := by
  have below := UInt32.lt_iff_toNat_lt.mp walking.2
  unfold snapshotWalkMeasure
  rw [if_neg walking.1]
  rcases climbs with zero | up
  · rw [if_pos zero]
    omega
  · have := UInt32.lt_iff_toNat_lt.mp up
    split <;> omega

theorem snapshotWalkMeasure_lt_fuel (ancestor cur : UInt32) : snapshotWalkMeasure ancestor cur < SNAPSHOT_ID_FUEL := by
  have := ancestor.toNat_lt
  unfold snapshotWalkMeasure SNAPSHOT_ID_FUEL
  split <;> omega

theorem isAncestorEarly_spec (above : ParentsAbove t) (id ancestor : UInt32) :
    ∃ b, bch2SnapshotIsAncestorEarly t id ancestor = some (.ok b) ∧ (b = true ↔ SnapshotReach t id ancestor) := by
  -- the walk keeps whether the target is reached from where it is
  refine run_of_variant (snapshotWalkMeasure ancestor)
    (fun cur => SnapshotReach t id ancestor ↔ SnapshotReach t cur ancestor) _ ?_ id Iff.rfl _
    (snapshotWalkMeasure_lt_fuel ancestor id)
  intro cur same
  by_cases walking : cur ≠ 0 ∧ cur < ancestor
  · rw [isAncestorEarlyStep,if_pos walking]
    exact ⟨same.trans (reach_parent_of_below walking),snapshotWalkMeasure_lt ancestor walking (above cur)⟩
  · rw [isAncestorEarlyStep,if_neg walking]
    show (cur == ancestor) = true ↔ _
    rw [same,reach_of_not_below above walking,beq_iff_eq]

-- What the descent leaves to the bitmap: an id no more than 128 below ancestor.
theorem toNat_sub_sub_one {a b : UInt32} (lt : b < a) : (a - b - 1).toNat = a.toNat - b.toNat - 1 := by
  have le := UInt32.le_of_lt lt
  have apart := UInt32.lt_iff_toNat_lt.mp lt
  have one : (1 : UInt32) ≤ a - b := by
    rw [UInt32.le_iff_toNat_le,UInt32.toNat_sub_of_le _ _ le]
    simp only [UInt32.toNat_one]
    omega
  rw [UInt32.toNat_sub_of_le _ _ one,UInt32.toNat_sub_of_le _ _ le,UInt32.toNat_one]

theorem reach_of_no_entry {cur ancestor : UInt32} (walking : cur ≠ 0 ∧ cur < ancestor)
    (stuck : snapshotParentEarly t cur = 0) : ¬ SnapshotReach t cur ancestor := by
  rw [reach_parent_of_below walking,stuck,reach_of_no_parent (.inl rfl)]
  exact fun same => absurd (same ▸ walking.2) (UInt32.not_lt.mpr UInt32.zero_le)

theorem getAncestorBelow_spec (above : ParentsAbove t) (skips : SkipsChosen t) {cur ancestor : UInt32}
    (walking : cur ≠ 0 ∧ cur < ancestor) :
    (getAncestorBelow t cur ancestor = 0 ∨ cur < getAncestorBelow t cur ancestor) ∧
      (SnapshotReach t cur ancestor ↔ SnapshotReach t (getAncestorBelow t cur ancestor) ancestor) := by
  have fromParent := reach_parent_of_below (t := t) walking
  unfold getAncestorBelow
  cases entry : t cur with
  | none =>
    have stuck : snapshotParentEarly t cur = 0 := by simp [snapshotParentEarly,entry]
    exact ⟨.inl rfl,stuck ▸ fromParent⟩
  | some s =>
    dsimp only
    obtain ⟨root,inner⟩ := skips cur s entry
    have parentIs : snapshotParentEarly t cur = s.parent := by simp [snapshotParentEarly,entry]
    by_cases isRoot : s.parent = 0
    · -- a root's skip entries are 0, and it has no ancestors
      rw [root isRoot]
      dsimp only
      rw [if_pos UInt32.zero_le]
      exact ⟨.inl rfl,(parentIs.trans isRoot) ▸ fromParent⟩
    · have jump : ∀ x ∈ [s.skip.1,s.skip.2.1,s.skip.2.2], x ≤ ancestor →
          (x = 0 ∨ cur < x) ∧ (SnapshotReach t cur ancestor ↔ SnapshotReach t x ancestor) := fun x mem le =>
        ⟨.inr (lt_of_reach_ne above (inner isRoot x mem).1 (inner isRoot x mem).2),
          reach_jump above (inner isRoot x mem).1 le⟩
      split_ifs with high middle low
      · exact jump _ (by simp) high
      · exact jump _ (by simp) middle
      · exact jump _ (by simp) low
      · rw [← parentIs]
        exact ⟨above cur,fromParent⟩

theorem near_of_stopped {cur ancestor : UInt32} (walking : cur ≠ 0 ∧ cur < ancestor)
    (stopped : ¬ (IS_ANCESTOR_BITMAP ≤ ancestor.toNat ∧ cur ≠ 0 ∧ cur < ancestor - IS_ANCESTOR_BITMAP.toUInt32)) :
    (ancestor - cur - 1).toNat < IS_ANCESTOR_BITMAP := by
  have below := UInt32.lt_iff_toNat_lt.mp walking.2
  rw [toNat_sub_sub_one walking.2]
  unfold IS_ANCESTOR_BITMAP at stopped ⊢
  by_cases far : 128 ≤ ancestor.toNat
  · have notBelow : ¬ cur < ancestor - (128 : Nat).toUInt32 := fun lt => stopped ⟨far,walking.1,lt⟩
    have bound : (ancestor - (128 : Nat).toUInt32).toNat = ancestor.toNat - 128 :=
      UInt32.toNat_sub_of_le _ _ (UInt32.le_iff_toNat_le.mpr (by simpa using far))
    rw [UInt32.lt_iff_toNat_lt,bound] at notBelow
    omega
  · omega

theorem isAncestor_spec (above : ParentsAbove t) (skips : SkipsChosen t) (bitmaps : BitmapsExact t)
    (id ancestor : UInt32) :
    ∃ b, run (isAncestorStep t ancestor) SNAPSHOT_ID_FUEL id = some (.ok b) ∧ (b = true ↔ SnapshotReach t id ancestor) := by
  refine run_of_variant (snapshotWalkMeasure ancestor)
    (fun cur => SnapshotReach t id ancestor ↔ SnapshotReach t cur ancestor) _ ?_ id Iff.rfl _
    (snapshotWalkMeasure_lt_fuel ancestor id)
  intro cur same
  by_cases descending : IS_ANCESTOR_BITMAP ≤ ancestor.toNat ∧ cur ≠ 0 ∧ cur < ancestor - IS_ANCESTOR_BITMAP.toUInt32
  · have walking : cur ≠ 0 ∧ cur < ancestor := by
      refine ⟨descending.2.1,UInt32.lt_iff_toNat_lt.mpr ?_⟩
      have lower := UInt32.lt_iff_toNat_lt.mp descending.2.2
      have bound : (ancestor - IS_ANCESTOR_BITMAP.toUInt32).toNat = ancestor.toNat - 128 :=
        UInt32.toNat_sub_of_le _ _ (UInt32.le_iff_toNat_le.mpr (by simpa [IS_ANCESTOR_BITMAP] using descending.1))
      omega
    rw [isAncestorStep,if_pos descending]
    obtain ⟨climbs,keeps⟩ := getAncestorBelow_spec above skips walking
    exact ⟨same.trans keeps,snapshotWalkMeasure_lt ancestor walking climbs⟩
  · rw [isAncestorStep,if_neg descending]
    show (if cur ≠ 0 ∧ cur < ancestor then testAncestorBitmap t cur ancestor else cur == ancestor) = true ↔ _
    rw [same]
    by_cases walking : cur ≠ 0 ∧ cur < ancestor
    · rw [if_pos walking]
      unfold testAncestorBitmap
      cases entry : t cur with
      | none =>
        have stuck : snapshotParentEarly t cur = 0 := by simp [snapshotParentEarly,entry]
        exact ⟨fun never => Bool.false_ne_true never |>.elim,fun reach => (reach_of_no_entry walking stuck reach).elim⟩
      | some s => exact bitmaps cur s walking.1 entry ancestor walking.2 (near_of_stopped walking descending)
    · rw [if_neg walking,reach_of_not_below above walking,beq_iff_eq]

end Walks

section Mark
variable {t : SnapshotTable}

theorem testBit_or_two_pow (bits k j : Nat) : (bits ||| 2^k).testBit j = (bits.testBit j || decide (k = j)) := by
  rw [Nat.testBit_or,Nat.testBit_two_pow]

theorem bitIndex_inj {id p q : UInt32} (lp : id < p) (lq : id < q)
    (same : (p - id - 1).toNat = (q - id - 1).toNat) : p = q := by
  rw [toNat_sub_sub_one lp,toNat_sub_sub_one lq] at same
  have := UInt32.lt_iff_toNat_lt.mp lp
  have := UInt32.lt_iff_toNat_lt.mp lq
  exact UInt32.toNat_inj.mp (by omega)

-- What the walk of __bch2_mark_snapshot has done at a node `cur` above `id`:
-- the bits of the ancestors up to `cur` are set.
def MarkWalkInv (t : SnapshotTable) (id : UInt32) (bits0 : Nat) (st : UInt32 × Nat) : Prop :=
  id ≤ st.1 ∧ st.1.toNat ≤ id.toNat + IS_ANCESTOR_BITMAP ∧
    (id ≠ 0 → SnapshotReach t id st.1 ∧ ∀ p, id < p → (p - id - 1).toNat < IS_ANCESTOR_BITMAP →
      (st.2.testBit (p - id - 1).toNat = true ↔
        bits0.testBit (p - id - 1).toNat = true ∨ (SnapshotReach t id p ∧ p ≤ st.1)))

theorem markWalk_spec (above : ParentsAbove t) (id : UInt32) (bits0 : Nat) :
    ∃ bits, run (markAncestorStep t id) (IS_ANCESTOR_BITMAP + 1) (id,bits0) = some (.ok bits) ∧
      (id ≠ 0 → ∀ p, id < p → (p - id - 1).toNat < IS_ANCESTOR_BITMAP →
        (bits.testBit (p - id - 1).toNat = true ↔ bits0.testBit (p - id - 1).toNat = true ∨ SnapshotReach t id p)) := by
  refine run_of_variant (fun st => id.toNat + IS_ANCESTOR_BITMAP - st.1.toNat) (MarkWalkInv t id bits0) _ ?_ (id,bits0)
    ⟨UInt32.le_refl _,Nat.le_add_right _ _,fun _ => ⟨.refl,fun p lt _ =>
      ⟨.inl,fun held => held.resolve_right fun ⟨_,le⟩ => absurd (UInt32.lt_of_lt_of_le lt le) (UInt32.lt_irrefl _)⟩⟩⟩
    _ (by simp [IS_ANCESTOR_BITMAP])
  rintro ⟨cur,bits⟩ ⟨low,high,walked⟩
  dsimp only at low high walked
  have curLow := UInt32.le_iff_toNat_le.mp low
  by_cases going : snapshotParentEarly t cur ≠ 0 ∧ (snapshotParentEarly t cur - id - 1).toNat < IS_ANCESTOR_BITMAP
  · rw [markAncestorStep,if_pos going]
    dsimp only
    have up : cur < snapshotParentEarly t cur := (above cur).resolve_left going.1
    have upNat := UInt32.lt_iff_toNat_lt.mp up
    have past : id < snapshotParentEarly t cur := UInt32.lt_of_le_of_lt low up
    have within := going.2
    rw [toNat_sub_sub_one past] at within
    simp only [MarkWalkInv]
    refine ⟨⟨UInt32.le_of_lt past,by omega,fun nonzero => ?_⟩,by omega⟩
    obtain ⟨toCur,held⟩ := walked nonzero
    have curNonzero : cur ≠ 0 := fun zero => nonzero (UInt32.le_antisymm (zero ▸ low) UInt32.zero_le)
    have toParent : SnapshotReach t id (snapshotParentEarly t cur) := .tail toCur ⟨curNonzero,rfl,going.1⟩
    refine ⟨toParent,fun p lt near => ?_⟩
    rw [testBit_or_two_pow,Bool.or_eq_true,held p lt near,decide_eq_true_iff]
    -- the ancestors up to the parent are those up to cur and the parent itself
    constructor
    · rintro ((old | ⟨reach,le⟩) | same)
      · exact .inl old
      · exact .inr ⟨reach,UInt32.le_of_lt (UInt32.lt_of_le_of_lt le up)⟩
      · obtain rfl := bitIndex_inj lt past same.symm
        exact .inr ⟨toParent,UInt32.le_refl _⟩
    · rintro (old | ⟨reach,le⟩)
      · exact .inl (.inl old)
      · by_cases below : p ≤ cur
        · exact .inl (.inr ⟨reach,below⟩)
        · obtain ⟨_,parentLe⟩ := parent_le_of_reach above toCur reach (UInt32.not_le.mp below)
          exact .inr (congrArg (fun x : UInt32 => (x - id - 1).toNat) (UInt32.le_antisymm le parentLe)).symm
  · rw [markAncestorStep,if_neg going]
    show ∀ nonzero : id ≠ 0, _
    intro nonzero p lt near
    obtain ⟨toCur,held⟩ := walked nonzero
    rw [held p lt near]
    -- an ancestor above cur would lie past the parent, out of the bitmap's reach
    refine or_congr_right ⟨fun ⟨reach,_⟩ => reach,fun reach => ⟨reach,?_⟩⟩
    by_contra beyond
    obtain ⟨parentNonzero,parentLe⟩ := parent_le_of_reach above toCur reach (UInt32.not_le.mp beyond)
    have up : cur < snapshotParentEarly t cur := (above cur).resolve_left parentNonzero
    have far : ¬ (snapshotParentEarly t cur - id - 1).toNat < IS_ANCESTOR_BITMAP := fun within => going ⟨parentNonzero,within⟩
    rw [toNat_sub_sub_one (UInt32.lt_of_le_of_lt low up)] at far
    rw [toNat_sub_sub_one lt] at near
    have := UInt32.le_iff_toNat_le.mp parentLe
    omega

end Mark

section Read
variable {t : SnapshotTable}

theorem reach_of_parents_eq {t' : SnapshotTable} (same : snapshotParentEarly t = snapshotParentEarly t') :
    SnapshotReach t = SnapshotReach t' := by
  unfold SnapshotReach SnapshotParentLink
  rw [same]

theorem reach_frame {t' : SnapshotTable} (above : ParentsAbove t) (above' : ParentsAbove t') {x p : UInt32}
    (agree : ∀ y, x ≤ y → snapshotParentEarly t y = snapshotParentEarly t' y) :
    SnapshotReach t x p ↔ SnapshotReach t' x p := by
  have links : ∀ y z, x.toNat ≤ y.toNat → (SnapshotParentLink t y z ↔ SnapshotParentLink t' y z) := by
    intro y z le
    unfold SnapshotParentLink
    rw [agree y (UInt32.le_iff_toNat_le.mpr le)]
  exact ⟨Chain.reach_congr (parentLink_climbs above) links,
    Chain.reach_congr (parentLink_climbs above') fun y z le => (links y z le).symm⟩

theorem parentEarly_update_ne {id x : UInt32} (e : Option SnapshotT) (apart : x ≠ id) :
    snapshotParentEarly (Function.update t id e) x = snapshotParentEarly t x := by
  simp [snapshotParentEarly,Function.update_of_ne apart]

theorem parentEarly_update_self (id : UInt32) (e : SnapshotT) :
    snapshotParentEarly (Function.update t id (some e)) id = e.parent := by
  simp [snapshotParentEarly]

theorem parentsAbove_update (above : ParentsAbove t) {id : UInt32} {e : SnapshotT} (up : e.parent = 0 ∨ id < e.parent) :
    ParentsAbove (Function.update t id (some e)) := by
  intro x
  by_cases here : x = id
  · subst here
    rw [parentEarly_update_self]
    exact up
  · rw [parentEarly_update_ne _ here]
    exact above x

-- What bch2_snapshots_read keeps while it marks: the nodes marked so far are the
-- only ones in the table, their parents lie above them, and their bitmaps are
-- exact.
structure SnapshotsReadInv (marked : List UInt32) (t : SnapshotTable) : Prop where
  above : ParentsAbove t
  bitmaps : BitmapsExact t
  unmarked : ∀ id, id ∉ marked → t id = none

theorem snapshotsReadInv_empty : SnapshotsReadInv [] fun _ => none :=
  ⟨fun _ => .inl rfl,fun _ _ _ absent => (by cases absent),fun _ _ => rfl⟩

-- Marking a node below every marked one: the new entry's bitmap comes out exact,
-- and the entries above it keep theirs, as nothing they reach has changed.
theorem bitmapsExact_update {marked : List UInt32} (inv : SnapshotsReadInv marked t) {id : UInt32} {e : SnapshotT}
    (below : ∀ x ∈ marked, id < x) (above' : ParentsAbove (Function.update t id (some e)))
    (fresh : id ≠ 0 → ∀ p, id < p → (p - id - 1).toNat < IS_ANCESTOR_BITMAP →
      (e.isAncestor.testBit (p - id - 1).toNat = true ↔ SnapshotReach (Function.update t id (some e)) id p)) :
    BitmapsExact (Function.update t id (some e)) := by
  intro x s nonzero entry p lt near
  by_cases here : x = id
  · subst here
    simp only [Function.update_self,Option.some.injEq] at entry
    subst entry
    exact fresh nonzero p lt near
  · rw [Function.update_of_ne here] at entry
    have isMarked : x ∈ marked := by
      by_contra absent
      rw [inv.unmarked x absent] at entry
      cases entry
    have higher := below x isMarked
    rw [inv.bitmaps x s nonzero entry p lt near]
    exact reach_frame inv.above above' fun y le =>
      (parentEarly_update_ne _ fun same => absurd (same ▸ UInt32.lt_of_lt_of_le higher le) (UInt32.lt_irrefl _)).symm

-- One pass of bch2_snapshots_read.
theorem bch2MarkSnapshot_inv {marked : List UInt32} (inv : SnapshotsReadInv marked t) {id : UInt32}
    {v : Option BchSnapshot} (below : ∀ x ∈ marked, id < x) (up : ∀ s, v = some s → s.parent = 0 ∨ id < s.parent) :
    ∃ t', bch2MarkSnapshot t id v = some t' ∧ SnapshotsReadInv (marked ++ [id]) t' := by
  have fresh : t id = none := inv.unmarked id fun isMarked => UInt32.lt_irrefl _ (below id isMarked)
  have unmarked' : ∀ (e : SnapshotT) x, x ∉ marked ++ [id] → Function.update t id (some e) x = none := by
    intro e x absent
    simp only [List.mem_append,List.mem_singleton,not_or] at absent
    rw [Function.update_of_ne absent.2,inv.unmarked x absent.1]
  cases v with
  | none =>
    -- another key type: a zeroed entry, with no parent and no bits
    have above' := @parentsAbove_update t inv.above id snapshotTZero (.inl rfl)
    refine ⟨_,rfl,above',bitmapsExact_update inv below above' ?_,unmarked' _⟩
    intro _ p lt _
    rw [reach_of_no_parent (.inr (parentEarly_update_self id snapshotTZero))]
    exact ⟨fun never => by simp [snapshotTZero] at never,fun same => absurd (same ▸ lt) (UInt32.lt_irrefl _)⟩
  | some s =>
    have entryAbove : (markedSnapshotT snapshotTZero s).parent = 0 ∨ id < (markedSnapshotT snapshotTZero s).parent :=
      up s rfl
    have above1 := parentsAbove_update inv.above entryAbove
    obtain ⟨bits,walk,exact⟩ := markWalk_spec above1 id (markedSnapshotT snapshotTZero s).isAncestor
    have parents : snapshotParentEarly
        (Function.update t id (some { markedSnapshotT snapshotTZero s with isAncestor := bits })) =
        snapshotParentEarly (Function.update t id (some (markedSnapshotT snapshotTZero s))) := by
      funext x
      unfold snapshotParentEarly
      by_cases here : x = id
      · subst here
        simp
      · simp [Function.update_of_ne here]
    have above' : ParentsAbove (Function.update t id (some { markedSnapshotT snapshotTZero s with isAncestor := bits })) := by
      unfold ParentsAbove
      rw [parents]
      exact above1
    refine ⟨Function.update t id (some { markedSnapshotT snapshotTZero s with isAncestor := bits }),?_,above',
      bitmapsExact_update inv below above' ?_,unmarked' _⟩
    · simp only [bch2MarkSnapshot,fresh,Option.getD_none,walk,Function.update_idem]
    · intro nonzero p lt near
      rw [reach_of_parents_eq parents]
      simpa [markedSnapshotT,snapshotTZero] using exact nonzero p lt near

-- The whole of bch2_snapshots_read, from any point of the key list.
theorem snapshotsRead_inv :
    ∀ (rest : List (UInt32 × Option BchSnapshot)) (marked : List UInt32) (t : SnapshotTable),
      SnapshotsReadInv marked t → (∀ x ∈ marked, ∀ k ∈ rest, k.1 < x) →
      rest.Pairwise (fun newer older => older.1 < newer.1) →
      (∀ k ∈ rest, ∀ s, k.2 = some s → s.parent = 0 ∨ k.1 < s.parent) →
      ∃ t', rest.foldlM (fun t k => bch2MarkSnapshot t k.1 k.2) t = some t' ∧
        SnapshotsReadInv (marked ++ rest.map (·.1)) t' := by
  intro rest
  induction rest with
  | nil => intro marked t inv _ _ _; exact ⟨t,rfl,by simpa using inv⟩
  | cons k rest ih =>
    intro marked t inv below descending up
    obtain ⟨first,later⟩ := List.pairwise_cons.mp descending
    obtain ⟨t1,marked1,inv1⟩ := bch2MarkSnapshot_inv inv (fun x mem => below x mem k (by simp))
      (up k (by simp))
    have below1 : ∀ x ∈ marked ++ [k.1], ∀ k' ∈ rest, k'.1 < x := by
      intro x mem k' mem'
      rcases List.mem_append.mp mem with old | new
      · exact below x old k' (by simp [mem'])
      · rw [List.mem_singleton.mp new]
        exact first k' mem'
    obtain ⟨t',loop,inv'⟩ := ih (marked ++ [k.1]) t1 inv1 below1 later fun k' mem => up k' (by simp [mem])
    refine ⟨t',?_,by simpa using inv'⟩
    rw [List.foldlM_cons,marked1]
    exact loop

-- After bch2_snapshots_read of keys from the highest id down, each with its
-- parent above it or 0, __bch2_snapshot_is_ancestor agrees with
-- __bch2_snapshot_is_ancestor_early on every pair of ids, both say whether the
-- parent links lead from id to ancestor, and both end: as soon as the skip
-- entries are those bch2_snapshot_skiplist_get chose.
theorem snapshot_is_ancestor_matches_parent_walk (keys : List (UInt32 × Option BchSnapshot))
    (descending : keys.Pairwise fun newer older => older.1 < newer.1)
    (parentsAbove : ∀ k ∈ keys, ∀ s, k.2 = some s → s.parent = 0 ∨ k.1 < s.parent) :
    ∃ t, bch2SnapshotsRead keys = some t ∧ ParentsAbove t ∧
      (SkipsChosen t → ∀ early id ancestor, ∃ b, bch2SnapshotIsAncestor early t id ancestor = some (.ok b) ∧
        bch2SnapshotIsAncestorEarly t id ancestor = some (.ok b) ∧ (b = true ↔ SnapshotReach t id ancestor)) := by
  obtain ⟨t,read,inv⟩ := snapshotsRead_inv keys [] _ snapshotsReadInv_empty (by simp) descending parentsAbove
  refine ⟨t,read,inv.above,fun skips early id ancestor => ?_⟩
  obtain ⟨b,slow,agrees⟩ := isAncestorEarly_spec inv.above id ancestor
  obtain ⟨b',fast,agrees'⟩ := isAncestor_spec inv.above skips inv.bitmaps id ancestor
  have same : b' = b := Bool.eq_iff_iff.mpr (agrees'.trans agrees.symm)
  refine ⟨b,?_,slow,agrees⟩
  cases early
  · rw [bch2SnapshotIsAncestor,if_neg Bool.false_ne_true,fast,same]
  · rw [bch2SnapshotIsAncestor,if_pos rfl,slow]

-- A root at 300, a child at 200 and a grandchild at 10, whose skip entries
-- point at its parent and at the root.
def snapshotTestKeys : List (UInt32 × Option BchSnapshot) :=
  [(300,some ⟨0,0,(200,0),1,1,0,(0,0,0),true⟩),(200,some ⟨0,300,(10,0),0,1,1,(300,300,300),true⟩),
    (10,some ⟨0,200,(0,0),2,1,2,(200,300,300),true⟩)]

theorem snapshotTestKeys_parents_above :
    ∀ k ∈ snapshotTestKeys, ∀ s, k.2 = some s → s.parent = 0 ∨ k.1 < s.parent := by
  intro k mem s key
  simp only [snapshotTestKeys,List.mem_cons,List.not_mem_nil,or_false] at mem
  rcases mem with rfl | rfl | rfl <;> cases key <;> decide

theorem snapshotTestKeys_entries :
    (bch2SnapshotsRead snapshotTestKeys).map (fun t => [300,200,10].map fun id => (t id).map fun e => (e.parent,e.skip)) =
      some [some (0,(0,0,0)),some (300,(300,300,300)),some (200,(200,300,300))] := by
  decide

theorem snapshotTestKeys_skipsChosen {t : SnapshotTable} (read : bch2SnapshotsRead snapshotTestKeys = some t) :
    SkipsChosen t := by
  obtain ⟨t',read',inv⟩ := snapshotsRead_inv snapshotTestKeys [] _ snapshotsReadInv_empty (by simp) (by decide)
    snapshotTestKeys_parents_above
  rw [Option.some.inj (read'.symm.trans read)] at inv
  have entries := snapshotTestKeys_entries
  rw [read] at entries
  simp only [Option.map_some,List.map_cons,List.map_nil,Option.some.injEq,List.cons.injEq,and_true] at entries
  obtain ⟨e300,e200,e10⟩ := entries
  have link : ∀ {id p : UInt32} {skip}, (t id).map (fun e => (e.parent,e.skip)) = some (p,skip) → p ≠ 0 →
      id ≠ 0 → SnapshotParentLink t id p := by
    intro id p skip entry nonzero idNonzero
    refine ⟨idNonzero,?_,nonzero⟩
    unfold snapshotParentEarly
    cases h : t id <;> simp_all
  have l10 := link e10 (by decide) (by decide)
  have l200 := link e200 (by decide) (by decide)
  intro id s entry
  by_cases marked : id ∈ [] ++ snapshotTestKeys.map (·.1)
  · simp only [snapshotTestKeys,List.nil_append,List.map_cons,List.map_nil,List.mem_cons,List.not_mem_nil,
      or_false] at marked
    rcases marked with rfl | rfl | rfl
    · simp only [entry,Option.map_some,Option.some.injEq,Prod.mk.injEq] at e300
      simp [e300]
    · simp only [entry,Option.map_some,Option.some.injEq,Prod.mk.injEq] at e200
      refine ⟨fun zero => absurd (e200.1 ▸ zero) (by decide),fun _ x mem => ?_⟩
      simp only [e200.2,List.mem_cons,List.not_mem_nil,or_false,or_self] at mem
      exact ⟨mem ▸ .single l200,mem ▸ by decide⟩
    · simp only [entry,Option.map_some,Option.some.injEq,Prod.mk.injEq] at e10
      refine ⟨fun zero => absurd (e10.1 ▸ zero) (by decide),fun _ x mem => ?_⟩
      simp only [e10.2,List.mem_cons,List.not_mem_nil,or_false,or_self] at mem
      rcases mem with rfl | rfl
      · exact ⟨.single l10,by decide⟩
      · exact ⟨.tail (.single l10) l200,by decide⟩
  · rw [inv.unmarked id marked] at entry
    cases entry

theorem snapshot_is_ancestor_three_nodes :
    ∃ t, bch2SnapshotsRead snapshotTestKeys = some t ∧ ParentsAbove t ∧ SkipsChosen t ∧
      ∀ early id ancestor, ∃ b, bch2SnapshotIsAncestor early t id ancestor = some (.ok b) ∧
        bch2SnapshotIsAncestorEarly t id ancestor = some (.ok b) ∧ (b = true ↔ SnapshotReach t id ancestor) := by
  obtain ⟨t,read,above,agree⟩ :=
    snapshot_is_ancestor_matches_parent_walk snapshotTestKeys (by decide) snapshotTestKeys_parents_above
  have skips := snapshotTestKeys_skipsChosen read
  exact ⟨t,read,above,skips,agree skips⟩

end Read

end Bcachefs
