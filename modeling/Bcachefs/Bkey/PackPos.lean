import Bcachefs.Bkey.FormatState

namespace Bcachefs
open WordStream

-- A position the format holds: each of its fields within the field's range.
def BposRepresentable (f : BkeyFormat) (q : Bpos) : Prop :=
  FieldCovers f .inode q.inode ∧ FieldCovers f .offset q.offset ∧ FieldCovers f .snapshot q.snapshot.toUInt64

instance fieldCoversDecidable (f : BkeyFormat) (i : BchBkeyFields) (v : UInt64) : Decidable (FieldCovers f i v) :=
  inferInstanceAs (Decidable (_ ∧ _))

instance bposRepresentableDecidable (f : BkeyFormat) (q : Bpos) : Decidable (BposRepresentable f q) :=
  inferInstanceAs (Decidable (_ ∧ _ ∧ _))

-- Every position field at least its offset, as the steps back leave the position.
def BposAboveOffsets (f : BkeyFormat) (p : Bpos) : Prop :=
  f.fieldOffset .inode ≤ p.inode ∧ f.fieldOffset .offset ≤ p.offset ∧ f.fieldOffset .snapshot ≤ p.snapshot.toUInt64

-- The largest value field i holds.
def fieldTop (f : BkeyFormat) (i : BchBkeyFields) : Nat := (f.fieldOffset i).toNat + 2^(f.bitsPerField i).toNat - 1

theorem fieldCovers_iff {f : BkeyFormat} {i : BchBkeyFields} {v : UInt64} :
    FieldCovers f i v ↔ (f.fieldOffset i).toNat ≤ v.toNat ∧ v.toNat ≤ fieldTop f i := by
  have one := Nat.one_le_two_pow (n := (f.bitsPerField i).toNat)
  unfold FieldCovers fieldTop
  rw [UInt64.le_iff_toNat_le]
  constructor
  · rintro ⟨above,fits⟩
    rw [UInt64.toNat_sub_of_le _ _ (UInt64.le_iff_toNat_le.mpr above)] at fits
    omega
  · rintro ⟨above,below⟩
    rw [UInt64.toNat_sub_of_le _ _ (UInt64.le_iff_toNat_le.mpr above)]
    omega

theorem fieldTop_lt {f : BkeyFormat} {i : BchBkeyFields} (fits : FieldFits f i) :
    (f.fieldOffset i).toNat ≤ fieldTop f i ∧ fieldTop f i < 2^(bch2BkeyFormatCurrent.bitsPerField i).toNat := by
  have one := Nat.one_le_two_pow (n := (f.bitsPerField i).toNat)
  have top := fits.top
  unfold fieldTop
  omega

-- The steps back of bch2_bkey_pack_pos_lossy, up to its last FAIL: the position
-- whose fields it stores, and whether it stepped back.
def packPosBorrow (f : BkeyFormat) (inPos : Bpos) : Option (Bpos × Bool) :=
  let snapshotBelow := decide (inPos.snapshot.toUInt64 < f.fieldOffset .snapshot)
  if snapshotBelow ∧ inPos.offset = 0 ∧ inPos.inode = 0 then none else
  let inPos : Bpos := if snapshotBelow then
      ⟨if inPos.offset = 0 then inPos.inode - 1 else inPos.inode,inPos.offset - 1,KEY_SNAPSHOT_MAX⟩
    else inPos
  let offsetBelow := decide (inPos.offset < f.fieldOffset .offset)
  if offsetBelow ∧ inPos.inode = 0 then none else
  let inPos : Bpos := if offsetBelow then ⟨inPos.inode - 1,KEY_OFFSET_MAX,KEY_SNAPSHOT_MAX⟩ else inPos
  if inPos.inode < f.fieldOffset .inode then none else some (inPos,snapshotBelow || offsetBelow)

-- The three set_inc_field_lossy stores; one that saturates sets the fields below
-- it to their maximum. The flag says that none saturated.
def packPosStore (f : BkeyFormat) (state : PackState) (inPos : Bpos) : PackState × Bool :=
  let inode := setIncFieldLossy f state .inode inPos.inode
  let inPos : Bpos := if inode.2 then inPos else {inPos with offset := KEY_OFFSET_MAX,snapshot := KEY_SNAPSHOT_MAX}
  let offset := setIncFieldLossy f inode.1 .offset inPos.offset
  let inPos : Bpos := if offset.2 then inPos else {inPos with snapshot := KEY_SNAPSHOT_MAX}
  let snapshot := setIncFieldLossy f offset.1 .snapshot inPos.snapshot.toUInt64
  (snapshot.1,inode.2 && offset.2 && snapshot.2)

-- The output with its key words cleared, as the loop over f->key_u64s leaves it.
def packPosCleared (out : BkeyPacked) (f : BkeyFormat) : BkeyPacked :=
  if f.keyU64s = 0 then out else ⟨0,0,false,0,out.words.mapIdx fun i w => if i < f.keyU64s.toNat then 0 else w⟩

theorem bch2BkeyPackPosLossy_eq (out : BkeyPacked) (inPos : Bpos) (f : BkeyFormat) :
    bch2BkeyPackPosLossy out inPos f =
      match packPosBorrow f inPos with
      | none => (.fail,packPosCleared out f)
      | some (p,borrowed) =>
        let stored := packPosStore f (packStateInit (packPosCleared out f)) p
        (if !borrowed && stored.2 then .exact else .smaller,
          {u64s := f.keyU64s,format := KEY_FORMAT_LOCAL_BTREE,needsWhiteout := (packPosCleared out f).needsWhiteout,
           type := KEY_TYPE_deleted,words := packStateFinish stored.1}) := by
  unfold bch2BkeyPackPosLossy packPosBorrow packPosStore packPosCleared
  dsimp only
  by_cases snapshotUnderflows : decide (inPos.snapshot.toUInt64 < f.fieldOffset .snapshot) = true ∧ inPos.offset = 0 ∧ inPos.inode = 0
  · simp only [if_pos snapshotUnderflows]
  · simp only [if_neg snapshotUnderflows]
    generalize (if decide (inPos.snapshot.toUInt64 < f.fieldOffset .snapshot) = true then
        (⟨if inPos.offset = 0 then inPos.inode - 1 else inPos.inode,inPos.offset - 1,KEY_SNAPSHOT_MAX⟩ : Bpos)
      else inPos) = stepped
    by_cases offsetUnderflows : decide (stepped.offset < f.fieldOffset .offset) = true ∧ stepped.inode = 0
    · simp only [if_pos offsetUnderflows]
    · simp only [if_neg offsetUnderflows]
      generalize (if decide (stepped.offset < f.fieldOffset .offset) = true then
          (⟨stepped.inode - 1,KEY_OFFSET_MAX,KEY_SNAPSHOT_MAX⟩ : Bpos) else stepped) = start
      by_cases inodeBelow : start.inode < f.fieldOffset .inode
      · simp only [if_pos inodeBelow]
      · simp only [if_neg inodeBelow,Bool.not_or,Bool.and_assoc]

theorem toNat_keyOffsetMax : KEY_OFFSET_MAX.toNat = 2^64 - 1 := rfl

theorem toNat_keySnapshotMax : KEY_SNAPSHOT_MAX.toNat = 2^32 - 1 := rfl

theorem setIncFieldLossy_spec {f : BkeyFormat} {i : BchBkeyFields} {v : UInt64}
    (above : f.fieldOffset i ≤ v) (state : PackState) :
    ∃ x : UInt64, setIncFieldLossy f state i v = (rawSetIncField f state i x,decide (v.toNat ≤ fieldTop f i)) ∧
      x.toNat + (f.fieldOffset i).toNat = min v.toNat (fieldTop f i) := by
  have one := Nat.one_le_two_pow (n := (f.bitsPerField i).toNat)
  have within := UInt64.le_iff_toNat_le.mp above
  have diff := UInt64.toNat_sub_of_le _ _ above
  unfold setIncFieldLossy fieldTop
  dsimp only
  split
  · rename_i saturates
    rw [gt_iff_lt,← Nat.not_le,fls64_le_iff] at saturates
    have narrow : (f.bitsPerField i).toNat < 64 := by
      by_contra full
      have : 2^64 ≤ 2^(f.bitsPerField i).toNat := Nat.pow_le_pow_right (by decide) (by omega)
      have := (v - f.fieldOffset i).toNat_lt
      omega
    refine ⟨~~~((~~~0 : UInt64) <<< UInt64.ofNat (f.bitsPerField i).toNat),?_,?_⟩
    · congr 1
      exact (decide_eq_false (by omega)).symm
    · rw [toNat_not_shiftLeft narrow]
      omega
  · rename_i stores
    rw [gt_iff_lt,Nat.not_lt,fls64_le_iff] at stores
    refine ⟨v - f.fieldOffset i,?_,?_⟩
    · congr 1
      exact (decide_eq_true (by omega)).symm
    · omega

theorem bposRepresentable_iff {f : BkeyFormat} {q : Bpos} :
    BposRepresentable f q ↔
      ((f.fieldOffset .inode).toNat ≤ q.inode.toNat ∧ q.inode.toNat ≤ fieldTop f .inode) ∧
      ((f.fieldOffset .offset).toNat ≤ q.offset.toNat ∧ q.offset.toNat ≤ fieldTop f .offset) ∧
      ((f.fieldOffset .snapshot).toNat ≤ q.snapshot.toNat ∧ q.snapshot.toNat ≤ fieldTop f .snapshot) := by
  unfold BposRepresentable
  rw [fieldCovers_iff,fieldCovers_iff,fieldCovers_iff,UInt32.toNat_toUInt64]

theorem bposAboveOffsets_iff {f : BkeyFormat} {p : Bpos} :
    BposAboveOffsets f p ↔ (f.fieldOffset .inode).toNat ≤ p.inode.toNat ∧
      (f.fieldOffset .offset).toNat ≤ p.offset.toNat ∧ (f.fieldOffset .snapshot).toNat ≤ p.snapshot.toNat := by
  unfold BposAboveOffsets
  rw [UInt64.le_iff_toNat_le,UInt64.le_iff_toNat_le,UInt64.le_iff_toNat_le,UInt32.toNat_toUInt64]

theorem posTops {f : BkeyFormat} (fits : ∀ i, FieldFits f i) :
    ((f.fieldOffset .inode).toNat ≤ fieldTop f .inode ∧ fieldTop f .inode < 2^64) ∧
    ((f.fieldOffset .offset).toNat ≤ fieldTop f .offset ∧ fieldTop f .offset < 2^64) ∧
    ((f.fieldOffset .snapshot).toNat ≤ fieldTop f .snapshot ∧ fieldTop f .snapshot < 2^32) :=
  ⟨fieldTop_lt (fits .inode),fieldTop_lt (fits .offset),fieldTop_lt (fits .snapshot)⟩

theorem bposRank_le_iff (q p : Bpos) :
    bposRank q ≤ bposRank p ↔ q.inode.toNat < p.inode.toNat ∨ q.inode.toNat = p.inode.toNat ∧
      (q.offset.toNat < p.offset.toNat ∨ q.offset.toNat = p.offset.toNat ∧ q.snapshot.toNat ≤ p.snapshot.toNat) := by
  have := q.offset.toNat_lt
  have := p.offset.toNat_lt
  have := q.snapshot.toNat_lt
  have := p.snapshot.toNat_lt
  unfold bposRank
  omega

theorem clamped_greatest {f : BkeyFormat} (fits : ∀ i, FieldFits f i) {p r : Bpos} (above : BposAboveOffsets f p)
    (inode : r.inode.toNat = min p.inode.toNat (fieldTop f .inode))
    (offset : r.offset.toNat =
      if p.inode.toNat ≤ fieldTop f .inode then min p.offset.toNat (fieldTop f .offset) else fieldTop f .offset)
    (snapshot : r.snapshot.toNat =
      if p.inode.toNat ≤ fieldTop f .inode ∧ p.offset.toNat ≤ fieldTop f .offset then
        min p.snapshot.toNat (fieldTop f .snapshot)
      else fieldTop f .snapshot) :
    BposRepresentable f r ∧ bposRank r ≤ bposRank p ∧
      ∀ q, BposRepresentable f q → bposRank q ≤ bposRank p → bposRank q ≤ bposRank r := by
  obtain ⟨inodeTop,offsetTop,snapshotTop⟩ := posTops fits
  rw [bposAboveOffsets_iff] at above
  have inodeLt := p.inode.toNat_lt
  have offsetLt := p.offset.toNat_lt
  have snapshotLt := p.snapshot.toNat_lt
  refine ⟨?_,?_,fun q held below => ?_⟩
  · rw [bposRepresentable_iff]
    split_ifs at offset snapshot <;> omega
  · rw [bposRank_le_iff]
    split_ifs at offset snapshot <;> omega
  · rw [bposRepresentable_iff] at held
    rw [bposRank_le_iff] at below ⊢
    split_ifs at offset snapshot <;> omega

theorem packPosStore_spec {f : BkeyFormat} (fits : ∀ i, FieldFits f i) {p : Bpos} (above : BposAboveOffsets f p)
    (state : PackState) :
    ∃ a b c : UInt64, packPosStore f state p =
        (rawSetIncField f (rawSetIncField f (rawSetIncField f state .inode a) .offset b) .snapshot c,
          decide (BposRepresentable f p)) ∧
      a.toNat + (f.fieldOffset .inode).toNat = min p.inode.toNat (fieldTop f .inode) ∧
      b.toNat + (f.fieldOffset .offset).toNat =
        (if p.inode.toNat ≤ fieldTop f .inode then min p.offset.toNat (fieldTop f .offset) else fieldTop f .offset) ∧
      c.toNat + (f.fieldOffset .snapshot).toNat =
        (if p.inode.toNat ≤ fieldTop f .inode ∧ p.offset.toNat ≤ fieldTop f .offset then
          min p.snapshot.toNat (fieldTop f .snapshot)
        else fieldTop f .snapshot) := by
  obtain ⟨inodeTop,offsetTop,snapshotTop⟩ := posTops fits
  have aboveNat := bposAboveOffsets_iff.mp above
  have offsetMax : f.fieldOffset .offset ≤ KEY_OFFSET_MAX :=
    UInt64.le_iff_toNat_le.mpr (by rw [toNat_keyOffsetMax]; omega)
  have snapshotMax : f.fieldOffset .snapshot ≤ KEY_SNAPSHOT_MAX.toUInt64 :=
    UInt64.le_iff_toNat_le.mpr (by rw [UInt32.toNat_toUInt64,toNat_keySnapshotMax]; omega)
  obtain ⟨a,storeA,valueA⟩ := setIncFieldLossy_spec above.1 state
  unfold packPosStore
  rw [storeA]
  dsimp only
  by_cases inodeFits : p.inode.toNat ≤ fieldTop f .inode
  · obtain ⟨b,storeB,valueB⟩ := setIncFieldLossy_spec above.2.1 (rawSetIncField f state .inode a)
    simp only [decide_eq_true inodeFits,if_true,storeB]
    by_cases offsetFits : p.offset.toNat ≤ fieldTop f .offset
    · obtain ⟨c,storeC,valueC⟩ := setIncFieldLossy_spec above.2.2 (rawSetIncField f (rawSetIncField f state .inode a) .offset b)
      simp only [decide_eq_true offsetFits,if_true,storeC]
      refine ⟨a,b,c,?_,valueA,by rw [if_pos inodeFits,valueB],
        by rw [if_pos ⟨inodeFits,offsetFits⟩,valueC,UInt32.toNat_toUInt64]⟩
      refine Prod.ext rfl ?_
      dsimp only
      rw [Bool.true_and,Bool.true_and,UInt32.toNat_toUInt64]
      exact decide_eq_decide.mpr (by rw [bposRepresentable_iff]; omega)
    · obtain ⟨c,storeC,valueC⟩ := setIncFieldLossy_spec snapshotMax
        (rawSetIncField f (rawSetIncField f state .inode a) .offset b)
      simp only [decide_eq_false offsetFits,Bool.false_eq_true,if_false,storeC]
      refine ⟨a,b,c,Prod.ext rfl ?_,valueA,by rw [if_pos inodeFits,valueB],?_⟩
      · dsimp only
        rw [Bool.true_and,Bool.false_and]
        exact (decide_eq_false (by rw [bposRepresentable_iff]; omega)).symm
      · rw [if_neg (fun both => offsetFits both.2),valueC,UInt32.toNat_toUInt64,toNat_keySnapshotMax]
        omega
  · obtain ⟨b,storeB,valueB⟩ := setIncFieldLossy_spec offsetMax (rawSetIncField f state .inode a)
    simp only [decide_eq_false inodeFits,Bool.false_eq_true,if_false,storeB,ite_self]
    obtain ⟨c,storeC,valueC⟩ := setIncFieldLossy_spec snapshotMax
      (rawSetIncField f (rawSetIncField f state .inode a) .offset b)
    simp only [storeC]
    refine ⟨a,b,c,Prod.ext rfl ?_,valueA,?_,?_⟩
    · dsimp only
      rw [Bool.false_and,Bool.false_and]
      exact (decide_eq_false (by rw [bposRepresentable_iff]; omega)).symm
    · rw [if_neg inodeFits,valueB,toNat_keyOffsetMax]
      omega
    · rw [if_neg (fun both => inodeFits both.1),valueC,UInt32.toNat_toUInt64,toNat_keySnapshotMax]
      omega

theorem toNat_eq_zero_iff (x : UInt64) : x = 0 ↔ x.toNat = 0 := by
  rw [← UInt64.toNat_inj]
  rfl

theorem toNat_sub_one (x : UInt64) : (x - 1).toNat = (x.toNat + (2^64 - 1)) % 2^64 := by
  rw [UInt64.toNat_sub,UInt64.toNat_one,Nat.add_comm]

-- `!in.offset-- && !in.inode--` then `in.snapshot = KEY_SNAPSHOT_MAX`: the last
-- snapshot before p's offset. It is the greatest position below p among those
-- whose snapshot is above p's.
theorem rank_le_before_snapshots {p q : Bpos} (nonzero : ¬(p.offset = 0 ∧ p.inode = 0))
    (later : p.snapshot.toNat < q.snapshot.toNat) :
    bposRank q ≤ bposRank p ↔
      bposRank q ≤ bposRank ⟨if p.offset = 0 then p.inode - 1 else p.inode,p.offset - 1,KEY_SNAPSHOT_MAX⟩ := by
  have pInode := p.inode.toNat_lt
  have pOffset := p.offset.toNat_lt
  have qOffset := q.offset.toNat_lt
  have qSnapshot := q.snapshot.toNat_lt
  have offset := toNat_sub_one p.offset
  rw [toNat_eq_zero_iff,toNat_eq_zero_iff] at nonzero
  rw [bposRank_le_iff,bposRank_le_iff,toNat_keySnapshotMax]
  dsimp only
  by_cases zero : p.offset = 0
  · have inode := toNat_sub_one p.inode
    rw [if_pos zero]
    rw [toNat_eq_zero_iff] at zero
    omega
  · rw [if_neg zero]
    rw [toNat_eq_zero_iff] at zero
    omega

-- `!in.inode--` then `in.offset = KEY_OFFSET_MAX, in.snapshot = KEY_SNAPSHOT_MAX`:
-- the last position of the inode before p's, the greatest below p among those
-- whose offset is above p's.
theorem rank_le_before_offsets {p q : Bpos} (nonzero : p.inode ≠ 0) (later : p.offset.toNat < q.offset.toNat) :
    bposRank q ≤ bposRank p ↔ bposRank q ≤ bposRank ⟨p.inode - 1,KEY_OFFSET_MAX,KEY_SNAPSHOT_MAX⟩ := by
  have pInode := p.inode.toNat_lt
  have qOffset := q.offset.toNat_lt
  have qSnapshot := q.snapshot.toNat_lt
  have inode := toNat_sub_one p.inode
  rw [Ne,toNat_eq_zero_iff] at nonzero
  rw [bposRank_le_iff,bposRank_le_iff]
  dsimp only
  rw [toNat_keyOffsetMax,toNat_keySnapshotMax]
  omega

theorem snapshot_step {f : BkeyFormat} (fits : ∀ i, FieldFits f i) {inPos stepped : Bpos}
    (kept : ¬(decide (inPos.snapshot.toUInt64 < f.fieldOffset .snapshot) = true ∧ inPos.offset = 0 ∧
      inPos.inode = 0))
    (step : (if decide (inPos.snapshot.toUInt64 < f.fieldOffset .snapshot) = true then
        (⟨if inPos.offset = 0 then inPos.inode - 1 else inPos.inode,inPos.offset - 1,KEY_SNAPSHOT_MAX⟩ : Bpos)
      else inPos) = stepped) :
    (∀ q, BposRepresentable f q → (bposRank q ≤ bposRank inPos ↔ bposRank q ≤ bposRank stepped)) ∧
      (f.fieldOffset .snapshot).toNat ≤ stepped.snapshot.toNat ∧
      (decide (inPos.snapshot.toUInt64 < f.fieldOffset .snapshot) = false → stepped = inPos) ∧
      (decide (inPos.snapshot.toUInt64 < f.fieldOffset .snapshot) = true → ¬ BposRepresentable f inPos) := by
  have snapshotTop := (posTops fits).2.2
  cases below : decide (inPos.snapshot.toUInt64 < f.fieldOffset .snapshot)
  · simp only [below,Bool.false_eq_true,if_false] at step
    subst step
    rw [decide_eq_false_iff_not,UInt64.lt_iff_toNat_lt,UInt32.toNat_toUInt64] at below
    exact ⟨fun q _ => Iff.rfl,by omega,fun _ => rfl,(fun wrong => by cases wrong)⟩
  · simp only [below,if_true] at step
    rw [below] at kept
    subst step
    rw [decide_eq_true_eq,UInt64.lt_iff_toNat_lt,UInt32.toNat_toUInt64] at below
    refine ⟨fun q held => rank_le_before_snapshots (fun both => kept ⟨rfl,both⟩) ?_,?_,(fun wrong => by cases wrong),
      fun _ held => ?_⟩
    · rw [bposRepresentable_iff] at held
      omega
    · rw [toNat_keySnapshotMax]
      omega
    · rw [bposRepresentable_iff] at held
      omega

theorem offset_step {f : BkeyFormat} (fits : ∀ i, FieldFits f i) {stepped start : Bpos}
    (kept : ¬(decide (stepped.offset < f.fieldOffset .offset) = true ∧ stepped.inode = 0))
    (step : (if decide (stepped.offset < f.fieldOffset .offset) = true then
        (⟨stepped.inode - 1,KEY_OFFSET_MAX,KEY_SNAPSHOT_MAX⟩ : Bpos) else stepped) = start)
    (snapshot : (f.fieldOffset .snapshot).toNat ≤ stepped.snapshot.toNat) :
    (∀ q, BposRepresentable f q → (bposRank q ≤ bposRank stepped ↔ bposRank q ≤ bposRank start)) ∧
      (f.fieldOffset .offset).toNat ≤ start.offset.toNat ∧ (f.fieldOffset .snapshot).toNat ≤ start.snapshot.toNat ∧
      (decide (stepped.offset < f.fieldOffset .offset) = false → start = stepped) ∧
      (decide (stepped.offset < f.fieldOffset .offset) = true → ¬ BposRepresentable f stepped) := by
  obtain ⟨_,offsetTop,snapshotTop⟩ := posTops fits
  cases below : decide (stepped.offset < f.fieldOffset .offset)
  · simp only [below,Bool.false_eq_true,if_false] at step
    subst step
    rw [decide_eq_false_iff_not,UInt64.lt_iff_toNat_lt] at below
    exact ⟨fun q _ => Iff.rfl,by omega,snapshot,fun _ => rfl,(fun wrong => by cases wrong)⟩
  · simp only [below,if_true] at step
    rw [below] at kept
    subst step
    rw [decide_eq_true_eq,UInt64.lt_iff_toNat_lt] at below
    refine ⟨fun q held => rank_le_before_offsets (fun zero => kept ⟨rfl,zero⟩) ?_,?_,?_,(fun wrong => by cases wrong),
      fun _ held => ?_⟩
    · rw [bposRepresentable_iff] at held
      omega
    · rw [toNat_keyOffsetMax]
      omega
    · rw [toNat_keySnapshotMax]
      omega
    · rw [bposRepresentable_iff] at held
      omega

theorem packPosBorrow_spec {f : BkeyFormat} (fits : ∀ i, FieldFits f i) (inPos : Bpos) :
    match packPosBorrow f inPos with
    | none => ∀ q, BposRepresentable f q → bposRank inPos < bposRank q
    | some (p,borrowed) => BposAboveOffsets f p ∧
        (∀ q, BposRepresentable f q → (bposRank q ≤ bposRank inPos ↔ bposRank q ≤ bposRank p)) ∧
        (borrowed = false → p = inPos) ∧ (borrowed = true → ¬ BposRepresentable f inPos) := by
  obtain ⟨inodeTop,offsetTop,snapshotTop⟩ := posTops fits
  have offsetMax := toNat_keyOffsetMax
  have snapshotMax := toNat_keySnapshotMax
  unfold packPosBorrow
  dsimp only
  by_cases snapshotUnderflows : decide (inPos.snapshot.toUInt64 < f.fieldOffset .snapshot) = true ∧ inPos.offset = 0 ∧ inPos.inode = 0
  · rw [if_pos snapshotUnderflows]
    obtain ⟨below,offset,inode⟩ := snapshotUnderflows
    rw [decide_eq_true_eq,UInt64.lt_iff_toNat_lt,UInt32.toNat_toUInt64] at below
    rw [toNat_eq_zero_iff] at offset inode
    intro q held
    rw [bposRepresentable_iff] at held
    rw [← Nat.not_le,bposRank_le_iff]
    omega
  · rw [if_neg snapshotUnderflows]
    generalize stepDef : (if decide (inPos.snapshot.toUInt64 < f.fieldOffset .snapshot) = true then
        (⟨if inPos.offset = 0 then inPos.inode - 1 else inPos.inode,inPos.offset - 1,KEY_SNAPSHOT_MAX⟩ : Bpos)
      else inPos) = stepped
    obtain ⟨steppedRank,steppedSnapshot,steppedSame,steppedHeld⟩ := snapshot_step fits snapshotUnderflows stepDef
    by_cases offsetUnderflows : decide (stepped.offset < f.fieldOffset .offset) = true ∧ stepped.inode = 0
    · rw [if_pos offsetUnderflows]
      obtain ⟨below,inode⟩ := offsetUnderflows
      rw [decide_eq_true_eq,UInt64.lt_iff_toNat_lt] at below
      rw [toNat_eq_zero_iff] at inode
      intro q held
      have apart : ¬ bposRank q ≤ bposRank stepped := by
        rw [bposRepresentable_iff] at held
        rw [bposRank_le_iff]
        omega
      exact Nat.lt_of_not_le fun le => apart ((steppedRank q held).mp le)
    · rw [if_neg offsetUnderflows]
      generalize startDef : (if decide (stepped.offset < f.fieldOffset .offset) = true then
          (⟨stepped.inode - 1,KEY_OFFSET_MAX,KEY_SNAPSHOT_MAX⟩ : Bpos) else stepped) = start
      obtain ⟨startRank,startOffset,startSnapshot,startSame,startHeld⟩ := offset_step fits offsetUnderflows startDef steppedSnapshot
      by_cases inodeBelow : start.inode < f.fieldOffset .inode
      · rw [if_pos inodeBelow]
        rw [UInt64.lt_iff_toNat_lt] at inodeBelow
        intro q held
        have apart : ¬ bposRank q ≤ bposRank start := by
          rw [bposRepresentable_iff] at held
          rw [bposRank_le_iff]
          omega
        exact Nat.lt_of_not_le fun le => apart ((startRank q held).mp ((steppedRank q held).mp le))
      · rw [if_neg inodeBelow]
        refine ⟨bposAboveOffsets_iff.mpr ⟨UInt64.le_iff_toNat_le.mp (UInt64.not_lt.mp inodeBelow),startOffset,startSnapshot⟩,
          fun q held => (steppedRank q held).trans (startRank q held),fun unborrowed => ?_,fun borrowed => ?_⟩
        · rw [Bool.or_eq_false_iff] at unborrowed
          rw [startSame unborrowed.2,steppedSame unborrowed.1]
        · cases below : decide (inPos.snapshot.toUInt64 < f.fieldOffset .snapshot)
          · rw [below,Bool.false_or] at borrowed
            rw [← steppedSame below]
            exact startHeld borrowed
          · exact steppedHeld below

-- The key the lossy pack spells: the stored values above their offsets, and
-- size and version at their offsets, which the cleared words hold as zero.
def packPosKey (f : BkeyFormat) (out : BkeyPacked) (a b c : UInt64) : Bkey :=
  {u64s := BKEY_U64s,format := KEY_FORMAT_CURRENT,needsWhiteout := out.needsWhiteout,type := KEY_TYPE_deleted,
   pad := 0,bversion := ⟨(f.fieldOffset .versionHi).toUInt32,f.fieldOffset .versionLo⟩,
   size := (f.fieldOffset .size).toUInt32,
   p := ⟨a + f.fieldOffset .inode,b + f.fieldOffset .offset,(c + f.fieldOffset .snapshot).toUInt32⟩}

-- The raw value each field of that key stores.
def packPosStored (a b c : UInt64) : BchBkeyFields → UInt64
  | .inode => a
  | .offset => b
  | .snapshot => c
  | _ => 0

theorem packPosKey_field {f : BkeyFormat} (fits : ∀ i, FieldFits f i) (out : BkeyPacked) (a b : UInt64) {c : UInt64}
    (small : c.toNat < 2^(f.bitsPerField .snapshot).toNat) (i : BchBkeyFields) :
    (packPosKey f out a b c).field i = packPosStored a b c i + f.fieldOffset i := by
  have low : ∀ j, (bch2BkeyFormatCurrent.bitsPerField j).toNat = 32 → (f.fieldOffset j).toNat < 2^32 := by
    intro j narrow
    have top := (fits j).top
    have := Nat.one_le_two_pow (n := (f.bitsPerField j).toNat)
    rw [narrow] at top
    omega
  cases i
  · rfl
  · rfl
  · have top := (fits .snapshot).top
    have sum := toNat_add_offset (fits .snapshot) small
    exact toUInt64_toUInt32_of_lt (by rw [sum]; change _ + _ ≤ 2^32 at top; omega)
  · exact (toUInt64_toUInt32_of_lt (low .size rfl)).trans (UInt64.zero_add _).symm
  · exact (toUInt64_toUInt32_of_lt (low .versionHi rfl)).trans (UInt64.zero_add _).symm
  · exact (UInt64.zero_add _).symm

theorem inRange_of_add_offset {f : BkeyFormat} {i : BchBkeyFields} (fits : FieldFits f i) {k : Bkey} {x : UInt64}
    (small : x.toNat < 2^(f.bitsPerField i).toNat) (field : k.field i = x + f.fieldOffset i) :
    InRange f k i ∧ (k.field i - f.fieldOffset i).toNat = x.toNat := by
  rw [InRange,field,UInt64.add_sub_cancel]
  exact ⟨⟨UInt64.le_iff_toNat_le.mpr (by rw [toNat_add_offset fits small]; omega),small⟩,rfl⟩

theorem words_packPosCleared (out : BkeyPacked) (f : BkeyFormat) :
    (packPosCleared out f).words = out.words.mapIdx fun i w => if i < f.keyU64s.toNat then 0 else w := by
  unfold packPosCleared
  split
  · next none =>
    rw [none]
    exact (List.mapIdx_eq_iff.mpr fun i => by cases out.words[i]? <;> rfl).symm
  · rfl

theorem packPosCleared_zero (out : BkeyPacked) (f : BkeyFormat) (room : out.words.length = f.keyU64s.toNat)
    (j : Nat) : (packPosCleared out f).words.getD j 0 = 0 := by
  simp only [words_packPosCleared,List.getD_eq_getElem?_getD,List.getElem?_mapIdx]
  by_cases inside : j < out.words.length
  · rw [List.getElem?_eq_getElem inside]
    simp [show j < f.keyU64s.toNat by omega]
  · rw [List.getElem?_eq_none (by omega)]
    rfl

theorem packPos_spells {f : BkeyFormat} (valid : bch2BkeyFormatInvalid f = .ok ()) {out : BkeyPacked}
    (room : out.words.length = f.keyU64s.toNat) {a b c : UInt64}
    (smallA : a.toNat < 2^(f.bitsPerField .inode).toNat) (smallB : b.toNat < 2^(f.bitsPerField .offset).toNat)
    (smallC : c.toNat < 2^(f.bitsPerField .snapshot).toNat) :
    PackedSpells f (packPosKey f out a b c)
      {u64s := f.keyU64s,format := KEY_FORMAT_LOCAL_BTREE,needsWhiteout := out.needsWhiteout,
       type := KEY_TYPE_deleted,words := packStateFinish (rawSetIncField f (rawSetIncField f (rawSetIncField f
         (packStateInit (packPosCleared out f)) .inode a) .offset b) .snapshot c)} := by
  have fits := fits_of_valid valid
  obtain ⟨wide,keyWords⟩ := format_valid_facts valid
  have small : ∀ i, (packPosStored a b c i).toNat < 2^(f.bitsPerField i).toNat := by
    intro i
    cases i
    · exact smallA
    · exact smallB
    · exact smallC
    all_goals exact Nat.two_pow_pos _
  have fields := fun i => inRange_of_add_offset (fits i) (small i) (packPosKey_field fits out a b smallC i)
  have packed : packedFields f (packPosKey f out a b c) bkeyFields =
      [((f.bitsPerField .inode).toNat,a.toNat),((f.bitsPerField .offset).toNat,b.toNat),
        ((f.bitsPerField .snapshot).toNat,c.toNat)] ++
      [((f.bitsPerField .size).toNat,0),((f.bitsPerField .versionHi).toNat,0),
        ((f.bitsPerField .versionLo).toNat,0)] := by
    simp only [packedFields,bkeyFields,List.map_cons,List.map_nil,(fields _).2]
    rfl
  have total : widthSum (packedFields f (packPosKey f out a b c) bkeyFields) + KEY_PACKED_BITS_START =
      bkeyFormatBits f := by
    rw [widthSum_packedFields,bkeyFormatBits]
    omega
  rw [packed,widthSum_append] at total
  simp only [widthSum_cons,widthSum_nil] at total
  unfold DIV_ROUND_UP KEY_PACKED_BITS_START at *
  have zero := packPosCleared_zero out f room
  have start : (packStateInit (packPosCleared out f)).Tracks f.keyU64s.toNat [] := by
    refine ⟨⟨Nat.le_refl _,rfl⟩,?_,rfl,.inr rfl,by simp [packStateInit,words_packPosCleared,room],
      by show 0 < f.keyU64s.toNat; omega,.inl (zero _)⟩
    simp [PackState.writer,Writer.stream,packStateInit,layout]
  have inode := rawSetIncField_tracks start (wide .inode) smallA (by simp only [widthSum_nil]; omega)
  have offset := rawSetIncField_tracks inode (wide .offset) smallB
    (by simp only [widthSum_append,widthSum_cons,widthSum_nil]; omega)
  have tracks := rawSetIncField_tracks offset (wide .snapshot) smallC
    (by simp only [widthSum_append,widthSum_cons,widthSum_nil]; omega)
  have zeros := @rawSetIncField_zeros f _ .snapshot c (@rawSetIncField_zeros f _ .offset b
    (@rawSetIncField_zeros f (packStateInit (packPosCleared out f)) .inode a fun j _ => zero j))
  have spelled := value_packStateFinish_of_zeros tracks zeros
  simp only [List.nil_append,List.cons_append] at spelled
  have length : (packStateFinish (rawSetIncField f (rawSetIncField f (rawSetIncField f
      (packStateInit (packPosCleared out f)) .inode a) .offset b) .snapshot c)).length = f.keyU64s.toNat := by
    rw [packStateFinish,List.length_set]
    exact tracks.room
  have tail : layout [((f.bitsPerField .size).toNat,0),((f.bitsPerField .versionHi).toNat,0),
      ((f.bitsPerField .versionLo).toNat,0)] = 0 := by
    simp [layout]
  refine ⟨fun i => (fields i).1,length,?_,?_,(UInt8.add_sub_cancel _ _).symm,rfl,rfl,rfl⟩
  · dsimp only
    rw [spelled,length,packed,layout_append,tail,Nat.add_zero,widthSum_append,Nat.mul_assoc,← Nat.pow_add]
    congr 2
    simp only [widthSum_cons,widthSum_nil]
    omega
  · dsimp only
    rw [length,packed,widthSum_append,KEY_PACKED_BITS_START]
    simp only [widthSum_cons,widthSum_nil]
    omega

theorem bch2BkeyPackPosLossy_of_borrow {f : BkeyFormat} (valid : bch2BkeyFormatInvalid f = .ok ()) {out : BkeyPacked}
    (room : out.words.length = f.keyU64s.toNat) {inPos p : Bpos} {borrowed : Bool}
    (borrow : packPosBorrow f inPos = some (p,borrowed)) (above : BposAboveOffsets f p) :
    let packed := bch2BkeyPackPosLossy out inPos f
    let unpacked := (rawBch2BkeyUnpackKey f packed.2).p
    packed.1 = (if !borrowed && decide (BposRepresentable f p) then .exact else .smaller) ∧
      unpacked.inode.toNat = min p.inode.toNat (fieldTop f .inode) ∧
      unpacked.offset.toNat = (if p.inode.toNat ≤ fieldTop f .inode then
        min p.offset.toNat (fieldTop f .offset) else fieldTop f .offset) ∧
      unpacked.snapshot.toNat = (if p.inode.toNat ≤ fieldTop f .inode ∧ p.offset.toNat ≤ fieldTop f .offset then
        min p.snapshot.toNat (fieldTop f .snapshot) else fieldTop f .snapshot) := by
  intro packed unpacked
  have fits := fits_of_valid valid
  have shape : packed = _ := bch2BkeyPackPosLossy_eq out inPos f
  rw [borrow] at shape
  dsimp only at shape
  obtain ⟨a,b,c,stored,valueA,valueB,valueC⟩ := packPosStore_spec fits above (packStateInit (packPosCleared out f))
  rw [stored] at shape
  obtain ⟨inodeTop,offsetTop,snapshotTop⟩ := posTops fits
  have bound : ∀ i (x : UInt64) (n : Nat), x.toNat + (f.fieldOffset i).toNat = n → n ≤ fieldTop f i →
      x.toNat < 2^(f.bitsPerField i).toNat := by
    intro i x n sum le
    have := Nat.one_le_two_pow (n := (f.bitsPerField i).toNat)
    unfold fieldTop at le
    omega
  have smallA := bound .inode a _ valueA (Nat.min_le_right _ _)
  have smallB := bound .offset b _ valueB (by split <;> omega)
  have smallC := bound .snapshot c _ valueC (by split <;> omega)
  have unpackedKey : unpacked = (packPosKey f out a b c).p := by
    show (rawBch2BkeyUnpackKey f packed.2).p = _
    rw [shape]
    exact (unpack_spelled (format_valid_facts valid).1 (packPos_spells valid room smallA smallB smallC)).1
  refine ⟨by rw [shape],?_,?_,?_⟩
  · rw [unpackedKey,← valueA]
    exact toNat_add_offset (fits .inode) smallA
  · rw [unpackedKey,← valueB]
    exact toNat_add_offset (fits .offset) smallB
  · -- the snapshot field is a u32 of struct bpos
    have within : c.toNat + (f.fieldOffset .snapshot).toNat < 2^32 := by rw [valueC]; split <;> omega
    rw [unpackedKey,← valueC]
    show ((c + f.fieldOffset .snapshot).toUInt32).toNat = _
    rw [UInt64.toNat_toUInt32,toNat_add_offset (fits .snapshot) smallC,Nat.mod_eq_of_lt within]

theorem packPosLossy_outcome {f : BkeyFormat} {inPos p : Bpos} {borrowed : Bool} {ret : BkeyPackPosRet}
    (unborrowed : borrowed = false → p = inPos) (borrowedHeld : borrowed = true → ¬ BposRepresentable f inPos)
    (returned : ret = if !borrowed && decide (BposRepresentable f p) then .exact else .smaller) :
    (BposRepresentable f inPos ∧ ret = .exact ∧ p = inPos) ∨ (¬ BposRepresentable f inPos ∧ ret = .smaller) := by
  by_cases held : BposRepresentable f inPos
  · have kept : borrowed = false := by
      cases borrowed
      · rfl
      · exact absurd held (borrowedHeld rfl)
    have same := unborrowed kept
    subst same
    refine .inl ⟨held,?_,rfl⟩
    rw [returned,kept,decide_eq_true held]
    rfl
  · refine .inr ⟨held,?_⟩
    rw [returned]
    cases borrowed
    · rw [unborrowed rfl,decide_eq_false held]
      rfl
    · rfl

-- bch2_bkey_pack_pos_lossy rounds down within the format: it fails exactly where
-- the format holds no position at or below `in`, is exact exactly on the positions
-- the format holds, and otherwise packs the greatest position it holds below `in`.
theorem bkey_pack_pos_lossy_greatest_below {f : BkeyFormat} (valid : bch2BkeyFormatInvalid f = .ok ())
    {out : BkeyPacked} (room : out.words.length = f.keyU64s.toNat) (inPos : Bpos) :
    let packed := bch2BkeyPackPosLossy out inPos f
    let unpacked := (rawBch2BkeyUnpackKey f packed.2).p
    (packed.1 = .fail ↔ ¬ ∃ q, BposRepresentable f q ∧ bposRank q ≤ bposRank inPos) ∧
      (packed.1 = .exact ↔ BposRepresentable f inPos) ∧
      (packed.1 = .exact → unpacked = inPos) ∧
      (packed.1 = .smaller → BposRepresentable f unpacked ∧ bposRank unpacked < bposRank inPos ∧
        ∀ q, BposRepresentable f q → bposRank q < bposRank inPos → bposRank q ≤ bposRank unpacked) := by
  intro packed unpacked
  have fits := fits_of_valid valid
  have spec := packPosBorrow_spec fits inPos
  cases borrow : packPosBorrow f inPos with
  | none =>
    -- no position the format holds is at or below inPos
    rw [borrow] at spec
    have failed : packed.1 = .fail := by
      show (bch2BkeyPackPosLossy out inPos f).1 = _
      rw [bch2BkeyPackPosLossy_eq,borrow]
    refine ⟨iff_of_true failed fun ⟨q,held,le⟩ => Nat.not_lt.mpr le (spec q held),
      iff_of_false (by rw [failed]; decide) fun held => Nat.lt_irrefl _ (spec inPos held),
      (fun exact => by rw [failed] at exact; cases exact),(fun smaller => by rw [failed] at smaller; cases smaller)⟩
  | some result =>
    obtain ⟨p,borrowed⟩ := result
    rw [borrow] at spec
    obtain ⟨above,sameBelow,unborrowed,borrowedHeld⟩ := spec
    obtain ⟨ret,inodeNat,offsetNat,snapshotNat⟩ := bch2BkeyPackPosLossy_of_borrow valid room borrow above
    obtain ⟨heldR,belowP,greatest⟩ := clamped_greatest fits above inodeNat offsetNat snapshotNat
    have outcome := packPosLossy_outcome unborrowed borrowedHeld ret
    refine ⟨iff_of_false ?_ fun none => none ⟨unpacked,heldR,(sameBelow _ heldR).mpr belowP⟩,?_,?_,?_⟩
    · rcases outcome with ⟨_,exact,_⟩ | ⟨_,smaller⟩
      · rw [exact]; decide
      · rw [smaller]; decide
    · rcases outcome with ⟨held,exact,_⟩ | ⟨notHeld,smaller⟩
      · exact iff_of_true exact held
      · exact iff_of_false (by rw [smaller]; decide) notHeld
    · intro exact
      rcases outcome with ⟨held,_,same⟩ | ⟨_,smaller⟩
      · -- an exact pack clamps nothing
        subst same
        rw [bposRepresentable_iff] at held
        apply bposRank_inj
        unfold bposRank
        rw [inodeNat,offsetNat,snapshotNat,if_pos held.1.2,if_pos ⟨held.1.2,held.2.1.2⟩]
        omega
      · rw [smaller] at exact
        cases exact
    · intro smaller
      rcases outcome with ⟨_,exact,_⟩ | ⟨notHeld,_⟩
      · rw [exact] at smaller
        cases smaller
      · have le := (sameBelow _ heldR).mpr belowP
        have apart : unpacked ≠ inPos := fun same => notHeld (same ▸ heldR)
        refine ⟨heldR,Nat.lt_of_le_of_ne le fun ranks => apart (bposRank_inj ranks),fun q held lt => ?_⟩
        exact greatest q held ((sameBelow q held).mp (Nat.le_of_lt lt))

-- In the test format the inode has 13 bits: inode 9000 is past its top, and the
-- pack rounds down to the last position of inode 8191.
theorem bkey_pack_pos_lossy_test_inode :
    bch2BkeyFormatInvalid packTestFormat = .ok () ∧
      let packed := bch2BkeyPackPosLossy ⟨0,0,false,0,[0,0,0]⟩ ⟨9000,5,0⟩ packTestFormat
      let unpacked := (rawBch2BkeyUnpackKey packTestFormat packed.2).p
      (packed.1 = .fail ↔ ¬ ∃ q, BposRepresentable packTestFormat q ∧ bposRank q ≤ bposRank ⟨9000,5,0⟩) ∧
        (packed.1 = .exact ↔ BposRepresentable packTestFormat ⟨9000,5,0⟩) ∧
        (packed.1 = .exact → unpacked = ⟨9000,5,0⟩) ∧
        (packed.1 = .smaller → BposRepresentable packTestFormat unpacked ∧ bposRank unpacked < bposRank ⟨9000,5,0⟩ ∧
          ∀ q, BposRepresentable packTestFormat q → bposRank q < bposRank ⟨9000,5,0⟩ →
            bposRank q ≤ bposRank unpacked) :=
  ⟨by decide,@bkey_pack_pos_lossy_greatest_below packTestFormat (by decide) ⟨0,0,false,0,[0,0,0]⟩ rfl ⟨9000,5,0⟩⟩

example : (bch2BkeyPackPosLossy ⟨0,0,false,0,[0,0,0]⟩ ⟨9000,5,0⟩ packTestFormat).1 = .smaller ∧
    (rawBch2BkeyUnpackKey packTestFormat (bch2BkeyPackPosLossy ⟨0,0,false,0,[0,0,0]⟩ ⟨9000,5,0⟩ packTestFormat).2).p =
      ⟨8191,KEY_OFFSET_MAX,KEY_SNAPSHOT_MAX⟩ := by decide

end Bcachefs
