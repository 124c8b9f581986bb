import Bcachefs.Bset.Node

namespace Bcachefs
open WordStream

def U64_MAX : UInt64 := 0xFFFFFFFFFFFFFFFF
def KEY_OFFSET_MAX : UInt64 := 0xFFFFFFFFFFFFFFFF
def KEY_SNAPSHOT_MAX : UInt32 := 0xFFFFFFFF

-- struct bkey_format_state: the smallest and the largest value added to each field.
structure BkeyFormatState where
  fieldMin : BchBkeyFields → UInt64
  fieldMax : BchBkeyFields → UInt64

-- bch2_bkey_format_init; the minimum size starts at 0 so that a size of 0 can be stored.
def bch2BkeyFormatInit : BkeyFormatState :=
  ⟨Function.update (fun _ => U64_MAX) .size 0,fun _ => 0⟩

def rawBkeyFormatAdd (s : BkeyFormatState) (field : BchBkeyFields) (v : UInt64) : BkeyFormatState :=
  ⟨Function.update s.fieldMin field (min (s.fieldMin field) v),
    Function.update s.fieldMax field (max (s.fieldMax field) v)⟩

-- bch2_bkey_format_add_key: the x-macro over bkey_fields().
def bch2BkeyFormatAddKey (s : BkeyFormatState) (k : Bkey) : BkeyFormatState :=
  bkeyFields.foldl (fun s field => rawBkeyFormatAdd s field (k.field field)) s

def bch2BkeyFormatAddPos (s : BkeyFormatState) (p : Bpos) : BkeyFormatState :=
  rawBkeyFormatAdd (rawBkeyFormatAdd (rawBkeyFormatAdd s .inode p.inode) .offset p.offset) .snapshot
    p.snapshot.toUInt64

-- set_format_field: never wider than the unpacked field, and the offset lowered
-- until the largest packed value still fits in the unpacked field.
def setFormatField (f : BkeyFormat) (i : BchBkeyFields) (bits : Nat) (offset : UInt64) : BkeyFormat :=
  let unpackedBits := (bch2BkeyFormatCurrent.bitsPerField i).toNat
  let unpackedMax : UInt64 := ~~~(((~~~0 : UInt64) <<< 1) <<< UInt64.ofNat (unpackedBits-1))
  let bits := min bits unpackedBits
  let offset := if bits = unpackedBits then 0 else min offset (unpackedMax - ((1 <<< UInt64.ofNat bits) - 1))
  {f with bitsPerField := Function.update f.bitsPerField i bits.toUInt8,
          fieldOffset := Function.update f.fieldOffset i offset}

-- The first loop of bch2_bkey_format_done: each field as wide as its range,
-- from its smallest value, with the widths added to `bits`.
def setFormatFields (s : BkeyFormatState) (fields : List BchBkeyFields) (acc : BkeyFormat × Nat) :
    BkeyFormat × Nat :=
  fields.foldl (fun acc i =>
    let fieldMin := min (s.fieldMin i) (s.fieldMax i)
    let ret := setFormatField acc.1 i (fls64 (s.fieldMax i - fieldMin)) fieldMin
    (ret,acc.2 + (ret.bitsPerField i).toNat)) acc

-- allow for extent merging: up to 4 more bits of size, within its 32.
def widenSizeField (acc : BkeyFormat × Nat) : BkeyFormat × Nat :=
  let sizeBits := (acc.1.bitsPerField .size).toNat
  if sizeBits ≠ 0 then
    let b := min 4 (32 - sizeBits)
    ({acc.1 with bitsPerField := Function.update acc.1.bitsPerField .size (sizeBits + b).toUInt8},acc.2 + b)
  else acc

-- round_up(x, 8) of include/linux/math.h, which keeps 0 at 0.
def roundUp (x y : Nat) : Nat := (x + y - 1) / y * y

-- One turn of the last loop: field i is rounded up to whole bytes if the spare
-- bits of the last word still cover it.
def roundFormatField (acc : BkeyFormat × Nat) (i : BchBkeyFields) : BkeyFormat × Nat :=
  let fieldBits := (acc.1.bitsPerField i).toNat
  let r := roundUp fieldBits 8 - fieldBits
  if r ≤ acc.2 then (setFormatField acc.1 i (fieldBits + r) (acc.1.fieldOffset i),acc.2 - r)
  else acc

def roundFormatFields (fields : List BchBkeyFields) (acc : BkeyFormat × Nat) : BkeyFormat × Nat :=
  fields.foldl roundFormatField acc

-- bch2_bkey_format_done. The source also stores the clamped minimum back into the
-- state, which no caller reads afterwards.
def bch2BkeyFormatDone (s : BkeyFormatState) : BkeyFormat :=
  let widened := widenSizeField (setFormatFields s bkeyFields
    (⟨0,BKEY_NR_FIELDS.toUInt8,fun _ => 0,fun _ => 0⟩,KEY_PACKED_BITS_START))
  let keyU64s := DIV_ROUND_UP widened.2 64
  (roundFormatFields bkeyFields ({widened.1 with keyU64s := keyU64s.toUInt8},keyU64s*64 - widened.2)).1

-- enum bkey_pack_pos_ret.
inductive BkeyPackPosRet where
  | exact
  | smaller
  | fail
  deriving DecidableEq, Repr

-- set_inc_field_lossy: a value too wide for its field is stored as the field's
-- largest value, and the store says so.
def setIncFieldLossy (format : BkeyFormat) (state : PackState) (field : BchBkeyFields) (v : UInt64) :
    PackState × Bool :=
  let bits := (format.bitsPerField field).toNat
  let v := v - format.fieldOffset field
  if fls64 v > bits then (rawSetIncField format state field (~~~((~~~0 : UInt64) <<< UInt64.ofNat bits)),false)
  else (rawSetIncField format state field v,true)

-- bch2_bkey_pack_pos_lossy, given the btree's format. The key words are cleared
-- before the pack state takes them, as the stores through `p` follow the clearing.
def bch2BkeyPackPosLossy (out : BkeyPacked) (inPos : Bpos) (f : BkeyFormat) : BkeyPackPosRet × BkeyPacked :=
  -- the loop over f->key_u64s zeroes the header word with the others
  let out : BkeyPacked := if f.keyU64s = 0 then out
    else ⟨0,0,false,0,out.words.mapIdx fun i w => if i < f.keyU64s.toNat then 0 else w⟩
  -- a snapshot below its offset: the last snapshot of the offset before, where
  -- `!in.offset-- && !in.inode--` fails at inode 0, offset 0
  let snapshotBelow := decide (inPos.snapshot.toUInt64 < f.fieldOffset .snapshot)
  if snapshotBelow ∧ inPos.offset = 0 ∧ inPos.inode = 0 then (.fail,out) else
  let inPos : Bpos := if snapshotBelow then
      ⟨if inPos.offset = 0 then inPos.inode - 1 else inPos.inode,inPos.offset - 1,KEY_SNAPSHOT_MAX⟩
    else inPos
  let offsetBelow := decide (inPos.offset < f.fieldOffset .offset)
  if offsetBelow ∧ inPos.inode = 0 then (.fail,out) else
  let inPos : Bpos := if offsetBelow then ⟨inPos.inode - 1,KEY_OFFSET_MAX,KEY_SNAPSHOT_MAX⟩ else inPos
  if inPos.inode < f.fieldOffset .inode then (.fail,out) else
  let inode := setIncFieldLossy f (packStateInit out) .inode inPos.inode
  let inPos : Bpos := if inode.2 then inPos else {inPos with offset := KEY_OFFSET_MAX,snapshot := KEY_SNAPSHOT_MAX}
  let offset := setIncFieldLossy f inode.1 .offset inPos.offset
  let inPos : Bpos := if offset.2 then inPos else {inPos with snapshot := KEY_SNAPSHOT_MAX}
  let snapshot := setIncFieldLossy f offset.1 .snapshot inPos.snapshot.toUInt64
  let exact := !snapshotBelow && !offsetBelow && inode.2 && offset.2 && snapshot.2
  (if exact then .exact else .smaller,
    {u64s := f.keyU64s,format := KEY_FORMAT_LOCAL_BTREE,needsWhiteout := out.needsWhiteout,
     type := KEY_TYPE_deleted,words := packStateFinish snapshot.1})

-- bkey_pack_pos.
def bkeyPackPos (out : BkeyPacked) (inPos : Bpos) (f : BkeyFormat) : Bool :=
  (bch2BkeyPackPosLossy out inPos f).1 == .exact

section State

-- A value added to a field lies within the range the state records for it.
def BkeyFormatState.Spans (s : BkeyFormatState) (i : BchBkeyFields) (v : UInt64) : Prop :=
  s.fieldMin i ≤ v ∧ v ≤ s.fieldMax i

theorem rawBkeyFormatAdd_spans (s : BkeyFormatState) (i : BchBkeyFields) (v : UInt64) :
    (rawBkeyFormatAdd s i v).Spans i v := by
  simp only [rawBkeyFormatAdd,BkeyFormatState.Spans,Function.update_self,UInt64.le_iff_toNat_le,
    UInt64.toNat_min,UInt64.toNat_max]
  omega

theorem rawBkeyFormatAdd_spans_of {s : BkeyFormatState} {j : BchBkeyFields} {w : UInt64} (i : BchBkeyFields)
    (v : UInt64) (spans : s.Spans j w) : (rawBkeyFormatAdd s i v).Spans j w := by
  unfold rawBkeyFormatAdd BkeyFormatState.Spans
  by_cases same : j = i
  · subst same
    have := UInt64.le_iff_toNat_le.mp spans.1
    have := UInt64.le_iff_toNat_le.mp spans.2
    simp only [Function.update_self,UInt64.le_iff_toNat_le,UInt64.toNat_min,UInt64.toNat_max]
    omega
  · simpa [Function.update_of_ne same,BkeyFormatState.Spans] using spans

theorem rawBkeyFormatAdd_min_size {s : BkeyFormatState} (i : BchBkeyFields) (v : UInt64)
    (zero : s.fieldMin .size = 0) : (rawBkeyFormatAdd s i v).fieldMin .size = 0 := by
  unfold rawBkeyFormatAdd
  by_cases same : BchBkeyFields.size = i
  · subst same
    simp only [Function.update_self,zero,← UInt64.toNat_inj,UInt64.toNat_min]
    simp
  · simpa [Function.update_of_ne same] using zero

theorem foldl_add_spans_of (k : Bkey) (fields : List BchBkeyFields) {s : BkeyFormatState}
    {j : BchBkeyFields} {w : UInt64} (spans : s.Spans j w) :
    (fields.foldl (fun s field => rawBkeyFormatAdd s field (k.field field)) s).Spans j w := by
  induction fields generalizing s with
  | nil => exact spans
  | cons i rest ih => exact ih (rawBkeyFormatAdd_spans_of i _ spans)

theorem foldl_add_spans (k : Bkey) (fields : List BchBkeyFields) (s : BkeyFormatState) {j : BchBkeyFields}
    (mem : j ∈ fields) : (fields.foldl (fun s field => rawBkeyFormatAdd s field (k.field field)) s).Spans j (k.field j) := by
  induction fields generalizing s with
  | nil => cases mem
  | cons i rest ih =>
    rcases List.mem_cons.mp mem with same | later
    · subst same
      exact foldl_add_spans_of k rest (rawBkeyFormatAdd_spans s j _)
    · exact ih _ later

theorem foldl_add_min_size (k : Bkey) (fields : List BchBkeyFields) {s : BkeyFormatState}
    (zero : s.fieldMin .size = 0) :
    (fields.foldl (fun s field => rawBkeyFormatAdd s field (k.field field)) s).fieldMin .size = 0 := by
  induction fields generalizing s with
  | nil => exact zero
  | cons i rest ih => exact ih (rawBkeyFormatAdd_min_size i _ zero)

theorem bch2BkeyFormatAddKey_spans (s : BkeyFormatState) (k : Bkey) (i : BchBkeyFields) :
    (bch2BkeyFormatAddKey s k).Spans i (k.field i) :=
  foldl_add_spans k bkeyFields s (mem_bkeyFields i)

theorem bch2BkeyFormatAddPos_spans (s : BkeyFormatState) (p : Bpos) :
    (bch2BkeyFormatAddPos s p).Spans .inode p.inode ∧ (bch2BkeyFormatAddPos s p).Spans .offset p.offset ∧
      (bch2BkeyFormatAddPos s p).Spans .snapshot p.snapshot.toUInt64 := by
  unfold bch2BkeyFormatAddPos
  refine ⟨?_,?_,rawBkeyFormatAdd_spans _ _ _⟩
  · exact rawBkeyFormatAdd_spans_of _ _ (rawBkeyFormatAdd_spans_of _ _ (rawBkeyFormatAdd_spans _ _ _))
  · exact rawBkeyFormatAdd_spans_of _ _ (rawBkeyFormatAdd_spans _ _ _)

-- A call that adds to a format state.
inductive BkeyFormatAdd where
  | key (k : Bkey)
  | pos (p : Bpos)

def BkeyFormatAdd.apply (s : BkeyFormatState) : BkeyFormatAdd → BkeyFormatState
  | .key k => bch2BkeyFormatAddKey s k
  | .pos p => bch2BkeyFormatAddPos s p

theorem apply_spans_of {s : BkeyFormatState} {j : BchBkeyFields} {w : UInt64} (a : BkeyFormatAdd)
    (spans : s.Spans j w) : (BkeyFormatAdd.apply s a).Spans j w := by
  cases a with
  | key k => exact foldl_add_spans_of k bkeyFields spans
  | pos p =>
    exact rawBkeyFormatAdd_spans_of _ _ (rawBkeyFormatAdd_spans_of _ _ (rawBkeyFormatAdd_spans_of _ _ spans))

theorem apply_min_size {s : BkeyFormatState} (a : BkeyFormatAdd) (zero : s.fieldMin .size = 0) :
    (BkeyFormatAdd.apply s a).fieldMin .size = 0 := by
  cases a with
  | key k => exact foldl_add_min_size k bkeyFields zero
  | pos p =>
    exact rawBkeyFormatAdd_min_size _ _ (rawBkeyFormatAdd_min_size _ _ (rawBkeyFormatAdd_min_size _ _ zero))

theorem foldl_apply_spans_of (adds : List BkeyFormatAdd) {s : BkeyFormatState} {j : BchBkeyFields} {w : UInt64}
    (spans : s.Spans j w) : (adds.foldl BkeyFormatAdd.apply s).Spans j w := by
  induction adds generalizing s with
  | nil => exact spans
  | cons a rest ih => exact ih (apply_spans_of a spans)

theorem foldl_apply_spans {adds : List BkeyFormatAdd} {a : BkeyFormatAdd} (mem : a ∈ adds) (s : BkeyFormatState)
    {j : BchBkeyFields} {w : UInt64} (added : ∀ s, (BkeyFormatAdd.apply s a).Spans j w) :
    (adds.foldl BkeyFormatAdd.apply s).Spans j w := by
  induction adds generalizing s with
  | nil => cases mem
  | cons b rest ih =>
    rcases List.mem_cons.mp mem with same | later
    · subst same
      exact foldl_apply_spans_of rest (added s)
    · exact ih later _

theorem foldl_apply_min_size (adds : List BkeyFormatAdd) {s : BkeyFormatState} (zero : s.fieldMin .size = 0) :
    (adds.foldl BkeyFormatAdd.apply s).fieldMin .size = 0 := by
  induction adds generalizing s with
  | nil => exact zero
  | cons a rest ih => exact ih (apply_min_size a zero)

end State

section Fields

theorem current_bits_cases (i : BchBkeyFields) :
    (bch2BkeyFormatCurrent.bitsPerField i).toNat = 32 ∨ (bch2BkeyFormatCurrent.bitsPerField i).toNat = 64 := by
  cases i <;> decide

-- A field holds v: v is at least the field's offset, and within its width above it.
def FieldCovers (f : BkeyFormat) (i : BchBkeyFields) (v : UInt64) : Prop :=
  f.fieldOffset i ≤ v ∧ (v - f.fieldOffset i).toNat < 2^(f.bitsPerField i).toNat

-- What bch2_bkey_format_field_overflows checks, in numbers: no wider than the
-- unpacked field, no offset at its full width, and the largest value fits.
structure FieldFits (f : BkeyFormat) (i : BchBkeyFields) : Prop where
  bits_le : (f.bitsPerField i).toNat ≤ (bch2BkeyFormatCurrent.bitsPerField i).toNat
  full : (f.bitsPerField i).toNat = (bch2BkeyFormatCurrent.bitsPerField i).toNat → f.fieldOffset i = 0
  top : (f.fieldOffset i).toNat + 2^(f.bitsPerField i).toNat ≤ 2^(bch2BkeyFormatCurrent.bitsPerField i).toNat

theorem fieldOverflows_of_fits {f : BkeyFormat} {i : BchBkeyFields} (fits : FieldFits f i) :
    bch2BkeyFormatFieldOverflows f i = false := by
  obtain ⟨le,full,top⟩ := fits
  unfold bch2BkeyFormatFieldOverflows
  set unpacked := (bch2BkeyFormatCurrent.bitsPerField i).toNat with unpackedDef
  set bits := (f.bitsPerField i).toNat with bitsDef
  have widths := current_bits_cases i
  have unpackedMask := toNat_lowMask_rev (b := unpacked) (by omega) (by omega)
  have fMask : (if bits ≠ 0 then ~~~(((~~~0 : UInt64) <<< UInt64.ofNat (bits-1)) <<< 1) else 0 : UInt64).toNat =
      2^bits - 1 := by
    split
    · exact toNat_lowMask (by omega) (by omega)
    · simp_all
  have noWrap : (f.fieldOffset i).toNat + (2^bits - 1) < 2^64 := by
    have : 2^unpacked ≤ 2^64 := Nat.pow_le_pow_right (by decide) (by omega)
    have := Nat.one_le_two_pow (n := bits)
    omega
  have below : (f.fieldOffset i).toNat + (2^bits - 1) < 2^unpacked := by
    have := Nat.one_le_two_pow (n := bits)
    omega
  dsimp only
  rw [if_neg (by omega),if_neg (fun both => both.2 (full both.1)),decide_eq_false_iff_not,UInt64.lt_iff_toNat_lt,
    UInt64.toNat_and,UInt64.toNat_add,fMask,unpackedMask,Nat.and_two_pow_sub_one_eq_mod,Nat.mod_eq_of_lt noWrap,
    Nat.mod_eq_of_lt below]
  omega

theorem add_lt_of_le_mod {x y m : Nat} (small : y < m) (le : x ≤ (x + y) % m) : x + y < m := by
  rcases Nat.lt_or_ge (x + y) m with fits | big
  · exact fits
  · have pos : 0 < m := by omega
    have once : 1 ≤ (x + y) / m := (Nat.one_le_div_iff pos).mpr big
    have split := Nat.div_add_mod (x + y) m
    have wraps : m ≤ m * ((x + y) / m) := Nat.le_mul_of_pos_right m once
    omega

theorem fits_of_fieldOverflows {f : BkeyFormat} {i : BchBkeyFields}
    (passes : bch2BkeyFormatFieldOverflows f i = false) : FieldFits f i := by
  unfold bch2BkeyFormatFieldOverflows at passes
  set unpacked := (bch2BkeyFormatCurrent.bitsPerField i).toNat with unpackedDef
  set bits := (f.bitsPerField i).toNat with bitsDef
  have widths := current_bits_cases i
  dsimp only at passes
  split at passes
  · cases passes
  · rename_i narrow
    split at passes
    · cases passes
    · rename_i offsetFree
      have unpackedMask := toNat_lowMask_rev (b := unpacked) (by omega) (by omega)
      have fMask : (if bits ≠ 0 then ~~~(((~~~0 : UInt64) <<< UInt64.ofNat (bits-1)) <<< 1) else 0 : UInt64).toNat =
          2^bits - 1 := by
        split
        · exact toNat_lowMask (by omega) (by omega)
        · simp_all
      rw [decide_eq_false_iff_not,UInt64.lt_iff_toNat_lt,UInt64.toNat_and,UInt64.toNat_add,fMask,unpackedMask,
        Nat.and_two_pow_sub_one_eq_mod,Nat.mod_mod_of_dvd _ (Nat.pow_dvd_pow 2 (by omega))] at passes
      have lower : 2^bits - 1 < 2^unpacked := by
        have := Nat.pow_le_pow_right (n := 2) (by decide) (Nat.le_of_not_lt narrow)
        omega
      have top := add_lt_of_le_mod lower (Nat.le_of_not_lt passes)
      have := Nat.one_le_two_pow (n := bits)
      refine ⟨Nat.le_of_not_lt narrow,fun full => ?_,?_⟩
      · by_contra nonzero
        exact offsetFree ⟨full,nonzero⟩
      · show (f.fieldOffset i).toNat + 2^bits ≤ 2^unpacked
        omega

theorem fits_of_valid {f : BkeyFormat} (valid : bch2BkeyFormatInvalid f = .ok ()) (i : BchBkeyFields) :
    FieldFits f i := by
  unfold bch2BkeyFormatInvalid at valid
  split at valid
  · cases valid
  · split at valid
    · cases valid
    · rename_i none_overflows
      apply fits_of_fieldOverflows
      simpa using List.find?_eq_none.mp none_overflows i (mem_bkeyFields i)

theorem toUInt64_toUInt32_of_lt {w : UInt64} (small : w.toNat < 2^32) : w.toUInt32.toUInt64 = w := by
  rw [← UInt64.toNat_inj,UInt32.toNat_toUInt64,UInt64.toNat_toUInt32,Nat.mod_eq_of_lt small]

theorem toNat_add_offset {f : BkeyFormat} {i : BchBkeyFields} (fits : FieldFits f i) {x : UInt64}
    (small : x.toNat < 2^(f.bitsPerField i).toNat) :
    (x + f.fieldOffset i).toNat = x.toNat + (f.fieldOffset i).toNat := by
  have top := fits.top
  have unpacked : 2^(bch2BkeyFormatCurrent.bitsPerField i).toNat ≤ 2^64 :=
    Nat.pow_le_pow_right (by decide) (current_bits_le i)
  rw [UInt64.toNat_add,Nat.mod_eq_of_lt (by omega)]

section SetFormatField
variable (f : BkeyFormat) (i : BchBkeyFields) (bits : Nat) (offset : UInt64)

@[simp] theorem keyU64s_setFormatField : (setFormatField f i bits offset).keyU64s = f.keyU64s := rfl

@[simp] theorem nrFields_setFormatField : (setFormatField f i bits offset).nrFields = f.nrFields := rfl

theorem bitsPerField_setFormatField_ne {j : BchBkeyFields} (ne : j ≠ i) :
    (setFormatField f i bits offset).bitsPerField j = f.bitsPerField j := by
  simp [setFormatField,Function.update_of_ne ne]

theorem fieldOffset_setFormatField_ne {j : BchBkeyFields} (ne : j ≠ i) :
    (setFormatField f i bits offset).fieldOffset j = f.fieldOffset j := by
  simp [setFormatField,Function.update_of_ne ne]

theorem bits_setFormatField :
    ((setFormatField f i bits offset).bitsPerField i).toNat = min bits (bch2BkeyFormatCurrent.bitsPerField i).toNat := by
  have widths := current_bits_cases i
  simp only [setFormatField,Function.update_self,Nat.toUInt8_eq,UInt8.toNat_ofNat']
  omega

-- unpacked_max - ((1 << bits) - 1) for a field narrower than its unpacked width.
theorem toNat_offsetLimit {b : Nat} (narrower : b < (bch2BkeyFormatCurrent.bitsPerField i).toNat) :
    (~~~(((~~~0 : UInt64) <<< 1) <<< UInt64.ofNat ((bch2BkeyFormatCurrent.bitsPerField i).toNat-1)) -
      (((1 : UInt64) <<< UInt64.ofNat b) - 1)).toNat = 2^(bch2BkeyFormatCurrent.bitsPerField i).toNat - 2^b := by
  have widths := current_bits_cases i
  have wider : 2^b < 2^(bch2BkeyFormatCurrent.bitsPerField i).toNat := Nat.pow_lt_pow_right (by decide) narrower
  have one := Nat.one_le_two_pow (n := b)
  have shifted := toNat_one_shiftLeft (b := b) (by omega)
  have unpackedMax := toNat_lowMask_rev (b := (bch2BkeyFormatCurrent.bitsPerField i).toNat) (by omega) (by omega)
  have low : (1 : UInt64) ≤ 1 <<< UInt64.ofNat b := by rw [UInt64.le_iff_toNat_le,shifted]; simpa using one
  have mask : ((1 : UInt64) <<< UInt64.ofNat b - 1).toNat = 2^b - 1 := by
    rw [UInt64.toNat_sub_of_le _ _ low,shifted,UInt64.toNat_one]
  rw [UInt64.toNat_sub_of_le _ _ (UInt64.le_iff_toNat_le.mpr (by rw [mask,unpackedMax]; omega)),mask,unpackedMax]
  omega

theorem offset_setFormatField :
    ((setFormatField f i bits offset).fieldOffset i).toNat =
      if bits < (bch2BkeyFormatCurrent.bitsPerField i).toNat then
        min offset.toNat (2^(bch2BkeyFormatCurrent.bitsPerField i).toNat - 2^bits)
      else 0 := by
  simp only [setFormatField,Function.update_self]
  by_cases narrower : bits < (bch2BkeyFormatCurrent.bitsPerField i).toNat
  · have width : min bits (bch2BkeyFormatCurrent.bitsPerField i).toNat = bits := Nat.min_eq_left narrower.le
    rw [width,if_neg (by omega),if_pos narrower,UInt64.toNat_min,toNat_offsetLimit i narrower]
  · have width : min bits (bch2BkeyFormatCurrent.bitsPerField i).toNat = (bch2BkeyFormatCurrent.bitsPerField i).toNat :=
      Nat.min_eq_right (by omega)
    rw [width,if_pos rfl,if_neg narrower,UInt64.toNat_zero]

theorem offset_setFormatField_le : (setFormatField f i bits offset).fieldOffset i ≤ offset := by
  rw [UInt64.le_iff_toNat_le,offset_setFormatField]
  split <;> omega

theorem setFormatField_fits : FieldFits (setFormatField f i bits offset) i := by
  have widths := current_bits_cases i
  have width := bits_setFormatField f i bits offset
  have placed := offset_setFormatField f i bits offset
  refine ⟨by omega,fun full => ?_,?_⟩
  · rw [← UInt64.toNat_inj,placed,if_neg (by omega),UInt64.toNat_zero]
  · rw [placed,width]
    by_cases narrower : bits < (bch2BkeyFormatCurrent.bitsPerField i).toNat
    · have : 2^bits ≤ 2^(bch2BkeyFormatCurrent.bitsPerField i).toNat := Nat.pow_le_pow_right (by decide) (by omega)
      rw [if_pos narrower,Nat.min_eq_left narrower.le]
      omega
    · rw [if_neg narrower,Nat.min_eq_right (show (bch2BkeyFormatCurrent.bitsPerField i).toNat ≤ bits by omega)]
      omega

theorem setFormatField_covers {v : UInt64} (small : v.toNat < 2^(bch2BkeyFormatCurrent.bitsPerField i).toNat)
    (above : offset ≤ v) (fits : (v - offset).toNat < 2^bits) : FieldCovers (setFormatField f i bits offset) i v := by
  have lowered := offset_setFormatField_le f i bits offset
  have placed := offset_setFormatField f i bits offset
  have aboveNat := UInt64.le_iff_toNat_le.mp above
  have loweredNat := UInt64.le_iff_toNat_le.mp lowered
  rw [UInt64.toNat_sub_of_le _ _ above] at fits
  refine ⟨UInt64.le_trans lowered above,?_⟩
  rw [UInt64.toNat_sub_of_le _ _ (UInt64.le_trans lowered above),bits_setFormatField]
  by_cases narrower : bits < (bch2BkeyFormatCurrent.bitsPerField i).toNat
  · rw [if_pos narrower] at placed
    rw [Nat.min_eq_left (by omega)]
    omega
  · rw [if_neg narrower] at placed
    rw [Nat.min_eq_right (by omega)]
    omega

end SetFormatField

theorem zero_fits (nr : UInt8) (i : BchBkeyFields) : FieldFits ⟨0,nr,fun _ => 0,fun _ => 0⟩ i := by
  have widths := current_bits_cases i
  refine ⟨by simp,fun full => rfl,?_⟩
  have : 2 ≤ 2^(bch2BkeyFormatCurrent.bitsPerField i).toNat := by
    rcases widths with w | w <;> rw [w] <;> decide
  simp only [UInt64.toNat_zero,UInt8.toNat_zero,pow_zero]
  omega

theorem FieldFits.congr {f g : BkeyFormat} {i : BchBkeyFields} (bits : g.bitsPerField i = f.bitsPerField i)
    (offset : g.fieldOffset i = f.fieldOffset i) (fits : FieldFits f i) : FieldFits g i := by
  obtain ⟨le,full,top⟩ := fits
  exact ⟨by rw [bits]; exact le,by rw [bits,offset]; exact full,by rw [bits,offset]; exact top⟩

theorem FieldCovers.congr {f g : BkeyFormat} {i : BchBkeyFields} {v : UInt64} (bits : g.bitsPerField i = f.bitsPerField i)
    (offset : g.fieldOffset i = f.fieldOffset i) (covers : FieldCovers f i v) : FieldCovers g i v := by
  unfold FieldCovers
  rw [bits,offset]
  exact covers

theorem bch2BkeyFormatInvalid_of_fits {f : BkeyFormat} (nr : f.nrFields.toNat = BKEY_NR_FIELDS) (fits : ∀ i, FieldFits f i)
    (words : f.keyU64s.toNat = DIV_ROUND_UP (bkeyFormatBits f) 64) : bch2BkeyFormatInvalid f = .ok () := by
  have none : bkeyFields.find? (bch2BkeyFormatFieldOverflows f) = none :=
    List.find?_eq_none.mpr fun i _ => by rw [fieldOverflows_of_fits (fits i)]; decide
  unfold bch2BkeyFormatInvalid
  rw [if_neg (not_not.mpr nr),none]
  dsimp only
  rw [if_neg (not_not.mpr words)]

theorem setFormatField_fits_of {f : BkeyFormat} (fits : ∀ j, FieldFits f j) (i : BchBkeyFields) (bits : Nat)
    (offset : UInt64) (j : BchBkeyFields) : FieldFits (setFormatField f i bits offset) j := by
  by_cases same : j = i
  · subst same
    exact setFormatField_fits f j bits offset
  · exact (fits j).congr (bitsPerField_setFormatField_ne f i bits offset same)
      (fieldOffset_setFormatField_ne f i bits offset same)

theorem setFormatField_covers_of {f : BkeyFormat} {j : BchBkeyFields} {v : UInt64} (covers : FieldCovers f j v)
    {i : BchBkeyFields} (ne : j ≠ i) (bits : Nat) (offset : UInt64) : FieldCovers (setFormatField f i bits offset) j v :=
  covers.congr (bitsPerField_setFormatField_ne f i bits offset ne) (fieldOffset_setFormatField_ne f i bits offset ne)

theorem bkeyFormatBits_update {f g : BkeyFormat} {i : BchBkeyFields}
    (same : ∀ j, j ≠ i → g.bitsPerField j = f.bitsPerField j) :
    bkeyFormatBits g + (f.bitsPerField i).toNat = bkeyFormatBits f + (g.bitsPerField i).toNat := by
  cases i <;> simp [bkeyFormatBits,bkeyFields,same] <;> omega

theorem bkeyFormatBits_le {f : BkeyFormat} (fits : ∀ j, FieldFits f j) : bkeyFormatBits f ≤ 408 := by
  have widths : ∀ j, (f.bitsPerField j).toNat ≤ 64 := fun j => Nat.le_trans (fits j).bits_le (current_bits_le j)
  have := widths .inode
  have := widths .offset
  have := widths .snapshot
  have := widths .size
  have := widths .versionHi
  have := widths .versionLo
  simp only [bkeyFormatBits,bkeyFields,List.map_cons,List.map_nil,List.sum_cons,List.sum_nil,KEY_PACKED_BITS_START]
  omega

end Fields

section Done

theorem spans_width {s : BkeyFormatState} {i : BchBkeyFields} {v : UInt64} (spans : s.Spans i v) :
    min (s.fieldMin i) (s.fieldMax i) ≤ v ∧
      (v - min (s.fieldMin i) (s.fieldMax i)).toNat < 2^fls64 (s.fieldMax i - min (s.fieldMin i) (s.fieldMax i)) := by
  have low := UInt64.le_iff_toNat_le.mp spans.1
  have high := UInt64.le_iff_toNat_le.mp spans.2
  have clamped : (min (s.fieldMin i) (s.fieldMax i)).toNat = (s.fieldMin i).toNat := by
    rw [UInt64.toNat_min]; omega
  have range := (fls64_le_iff (s.fieldMax i - min (s.fieldMin i) (s.fieldMax i)) _).mp (Nat.le_refl _)
  have above : min (s.fieldMin i) (s.fieldMax i) ≤ v := UInt64.le_iff_toNat_le.mpr (by omega)
  have top : min (s.fieldMin i) (s.fieldMax i) ≤ s.fieldMax i := UInt64.le_iff_toNat_le.mpr (by omega)
  rw [UInt64.toNat_sub_of_le _ _ top] at range
  refine ⟨above,?_⟩
  rw [UInt64.toNat_sub_of_le _ _ above]
  omega

section Ranges
variable (s : BkeyFormatState)

theorem setFormatFields_cons (i : BchBkeyFields) (rest : List BchBkeyFields) (acc : BkeyFormat × Nat) :
    setFormatFields s (i :: rest) acc =
      setFormatFields s rest
        (setFormatField acc.1 i (fls64 (s.fieldMax i - min (s.fieldMin i) (s.fieldMax i))) (min (s.fieldMin i) (s.fieldMax i)),
          acc.2 + ((setFormatField acc.1 i (fls64 (s.fieldMax i - min (s.fieldMin i) (s.fieldMax i)))
            (min (s.fieldMin i) (s.fieldMax i))).bitsPerField i).toNat) := rfl

theorem setFormatFields_fits (fields : List BchBkeyFields) {acc : BkeyFormat × Nat} (fits : ∀ j, FieldFits acc.1 j) :
    ∀ j, FieldFits (setFormatFields s fields acc).1 j := by
  induction fields generalizing acc with
  | nil => exact fits
  | cons i rest ih => exact ih (setFormatField_fits_of fits i _ _)

theorem nrFields_setFormatFields (fields : List BchBkeyFields) (acc : BkeyFormat × Nat) :
    (setFormatFields s fields acc).1.nrFields = acc.1.nrFields := by
  induction fields generalizing acc with
  | nil => rfl
  | cons i rest ih => exact ih _

theorem setFormatFields_frame {fields : List BchBkeyFields} {j : BchBkeyFields} (absent : j ∉ fields)
    (acc : BkeyFormat × Nat) :
    (setFormatFields s fields acc).1.bitsPerField j = acc.1.bitsPerField j ∧
      (setFormatFields s fields acc).1.fieldOffset j = acc.1.fieldOffset j := by
  induction fields generalizing acc with
  | nil => exact ⟨rfl,rfl⟩
  | cons i rest ih =>
    have ne : j ≠ i := fun same => absent (same ▸ List.mem_cons_self)
    obtain ⟨bits,offset⟩ := ih (fun mem => absent (List.mem_cons_of_mem i mem)) (setFormatField acc.1 i _ _,_)
    exact ⟨bits.trans (bitsPerField_setFormatField_ne _ _ _ _ ne),offset.trans (fieldOffset_setFormatField_ne _ _ _ _ ne)⟩

theorem setFormatFields_covers (fields : List BchBkeyFields) {acc : BkeyFormat × Nat} {j : BchBkeyFields} {v : UInt64}
    (spans : s.Spans j v) (small : v.toNat < 2^(bch2BkeyFormatCurrent.bitsPerField j).toNat)
    (reached : j ∈ fields ∨ FieldCovers acc.1 j v) : FieldCovers (setFormatFields s fields acc).1 j v := by
  induction fields generalizing acc with
  | nil => exact reached.resolve_left (by simp)
  | cons i rest ih =>
    apply ih
    by_cases same : j = i
    · subst same
      have ⟨above,width⟩ := spans_width spans
      exact .inr (setFormatField_covers _ _ _ _ small above width)
    · rcases reached with mem | covers
      · exact .inl ((List.mem_cons.mp mem).resolve_left same)
      · exact .inr (setFormatField_covers_of covers same _ _)

theorem setFormatFields_bits {fields : List BchBkeyFields} (distinct : fields.Nodup) (acc : BkeyFormat × Nat) :
    (setFormatFields s fields acc).2 =
      acc.2 + (fields.map fun j => ((setFormatFields s fields acc).1.bitsPerField j).toNat).sum := by
  induction fields generalizing acc with
  | nil => rfl
  | cons i rest ih =>
    obtain ⟨absent,restDistinct⟩ := List.nodup_cons.mp distinct
    rw [setFormatFields_cons,ih restDistinct,List.map_cons,List.sum_cons,(setFormatFields_frame s absent _).1]
    dsimp only
    omega

theorem setFormatFields_offset_zero (fields : List BchBkeyFields) {acc : BkeyFormat × Nat} {j : BchBkeyFields}
    (zero : s.fieldMin j = 0) (start : acc.1.fieldOffset j = 0) : (setFormatFields s fields acc).1.fieldOffset j = 0 := by
  induction fields generalizing acc with
  | nil => exact start
  | cons i rest ih =>
    rw [setFormatFields_cons]
    apply ih
    dsimp only
    by_cases same : j = i
    · subst same
      have lowered := UInt64.le_iff_toNat_le.mp (offset_setFormatField_le acc.1 j
        (fls64 (s.fieldMax j - min (s.fieldMin j) (s.fieldMax j))) (min (s.fieldMin j) (s.fieldMax j)))
      have clamped : (min (s.fieldMin j) (s.fieldMax j)).toNat = 0 := by
        rw [UInt64.toNat_min,zero,UInt64.toNat_zero]; simp
      exact UInt64.toNat_inj.mp (by rw [UInt64.toNat_zero]; omega)
    · exact (fieldOffset_setFormatField_ne _ _ _ _ same).trans start

end Ranges

theorem widenSizeField_size (acc : BkeyFormat × Nat) :
    ((widenSizeField acc).1.bitsPerField .size).toNat = (acc.1.bitsPerField .size).toNat +
        (if (acc.1.bitsPerField .size).toNat ≠ 0 then min 4 (32 - (acc.1.bitsPerField .size).toNat) else 0) ∧
      (widenSizeField acc).2 = acc.2 +
        (if (acc.1.bitsPerField .size).toNat ≠ 0 then min 4 (32 - (acc.1.bitsPerField .size).toNat) else 0) := by
  have small := (acc.1.bitsPerField .size).toNat_lt
  unfold widenSizeField
  dsimp only
  split
  · refine ⟨?_,rfl⟩
    simp only [Function.update_self,Nat.toUInt8_eq,UInt8.toNat_ofNat']
    exact Nat.mod_eq_of_lt (by omega)
  · simp

theorem widenSizeField_frame (acc : BkeyFormat × Nat) {j : BchBkeyFields} (ne : j ≠ .size) :
    (widenSizeField acc).1.bitsPerField j = acc.1.bitsPerField j := by
  unfold widenSizeField
  dsimp only
  split
  · exact Function.update_of_ne ne _ _
  · rfl

theorem fieldOffset_widenSizeField (acc : BkeyFormat × Nat) : (widenSizeField acc).1.fieldOffset = acc.1.fieldOffset := by
  unfold widenSizeField
  dsimp only
  split <;> rfl

theorem nrFields_widenSizeField (acc : BkeyFormat × Nat) : (widenSizeField acc).1.nrFields = acc.1.nrFields := by
  unfold widenSizeField
  dsimp only
  split <;> rfl

theorem widenSizeField_fits {acc : BkeyFormat × Nat} (fits : ∀ j, FieldFits acc.1 j) (zero : acc.1.fieldOffset .size = 0) :
    ∀ j, FieldFits (widenSizeField acc).1 j := by
  intro j
  by_cases same : j = .size
  · subst same
    have width : (acc.1.bitsPerField .size).toNat ≤ 32 := (fits .size).bits_le
    obtain ⟨widened,-⟩ := widenSizeField_size acc
    have offset : (widenSizeField acc).1.fieldOffset .size = 0 := by rw [fieldOffset_widenSizeField,zero]
    have top : 2^((widenSizeField acc).1.bitsPerField .size).toNat ≤ 2^32 :=
      Nat.pow_le_pow_right (by decide) (by rw [widened]; split <;> omega)
    refine ⟨?_,fun _ => offset,?_⟩
    · change _ ≤ 32
      rw [widened]
      split <;> omega
    · rw [offset,UInt64.toNat_zero,Nat.zero_add]
      exact top
  · exact FieldFits.congr (f := acc.1) (widenSizeField_frame acc same) (by rw [fieldOffset_widenSizeField]) (fits j)

theorem widenSizeField_covers {acc : BkeyFormat × Nat} {j : BchBkeyFields} {v : UInt64} (covers : FieldCovers acc.1 j v) :
    FieldCovers (widenSizeField acc).1 j v := by
  obtain ⟨above,within⟩ := covers
  refine ⟨by rw [fieldOffset_widenSizeField]; exact above,?_⟩
  rw [fieldOffset_widenSizeField]
  refine Nat.lt_of_lt_of_le within (Nat.pow_le_pow_right (by decide) ?_)
  by_cases same : j = .size
  · subst same
    rw [(widenSizeField_size acc).1]
    omega
  · rw [widenSizeField_frame acc same]

theorem widenSizeField_bits {acc : BkeyFormat × Nat} (counted : bkeyFormatBits acc.1 = acc.2) :
    bkeyFormatBits (widenSizeField acc).1 = (widenSizeField acc).2 := by
  obtain ⟨widened,total⟩ := widenSizeField_size acc
  have sum := bkeyFormatBits_update (f := acc.1) (g := (widenSizeField acc).1) (i := .size)
    (fun j ne => widenSizeField_frame acc ne)
  rw [widened] at sum
  omega

theorem roundUp_le {b u : Nat} (within : b ≤ u) (bytes : u = 32 ∨ u = 64) : b ≤ roundUp b 8 ∧ roundUp b 8 ≤ u := by
  unfold roundUp
  omega

section Round
variable (acc : BkeyFormat × Nat) (i : BchBkeyFields)

theorem roundFormatField_fits (fits : ∀ j, FieldFits acc.1 j) : ∀ j, FieldFits (roundFormatField acc i).1 j := by
  unfold roundFormatField
  dsimp only
  split
  · exact setFormatField_fits_of fits i _ _
  · exact fits

theorem roundFormatField_header :
    (roundFormatField acc i).1.keyU64s = acc.1.keyU64s ∧ (roundFormatField acc i).1.nrFields = acc.1.nrFields := by
  unfold roundFormatField
  dsimp only
  split <;> exact ⟨rfl,rfl⟩

theorem roundFormatField_covers {j : BchBkeyFields} {v : UInt64}
    (small : v.toNat < 2^(bch2BkeyFormatCurrent.bitsPerField j).toNat) (covers : FieldCovers acc.1 j v) :
    FieldCovers (roundFormatField acc i).1 j v := by
  unfold roundFormatField
  dsimp only
  split
  · by_cases same : j = i
    · subst same
      obtain ⟨above,within⟩ := covers
      exact setFormatField_covers _ _ _ _ small above
        (Nat.lt_of_lt_of_le within (Nat.pow_le_pow_right (by decide) (by omega)))
    · exact setFormatField_covers_of covers same _ _
  · exact covers

theorem roundFormatField_bits (fits : ∀ j, FieldFits acc.1 j) :
    bkeyFormatBits (roundFormatField acc i).1 + (roundFormatField acc i).2 = bkeyFormatBits acc.1 + acc.2 ∧
      (roundFormatField acc i).2 ≤ acc.2 := by
  unfold roundFormatField
  dsimp only
  split
  · have ⟨grown,rounded⟩ := roundUp_le (fits i).bits_le (current_bits_cases i)
    have sum := bkeyFormatBits_update (f := acc.1) (i := i)
      (fun j ne => bitsPerField_setFormatField_ne acc.1 i
        ((acc.1.bitsPerField i).toNat + (roundUp (acc.1.bitsPerField i).toNat 8 - (acc.1.bitsPerField i).toNat))
        (acc.1.fieldOffset i) ne)
    rw [bits_setFormatField,Nat.min_eq_left (by omega)] at sum
    dsimp only
    omega
  · exact ⟨rfl,Nat.le_refl _⟩

end Round

theorem roundFormatFields_fits (fields : List BchBkeyFields) {acc : BkeyFormat × Nat} (fits : ∀ j, FieldFits acc.1 j) :
    ∀ j, FieldFits (roundFormatFields fields acc).1 j := by
  induction fields generalizing acc with
  | nil => exact fits
  | cons i rest ih => exact ih (roundFormatField_fits acc i fits)

theorem roundFormatFields_header (fields : List BchBkeyFields) (acc : BkeyFormat × Nat) :
    (roundFormatFields fields acc).1.keyU64s = acc.1.keyU64s ∧ (roundFormatFields fields acc).1.nrFields = acc.1.nrFields := by
  induction fields generalizing acc with
  | nil => exact ⟨rfl,rfl⟩
  | cons i rest ih =>
    obtain ⟨words,nr⟩ := roundFormatField_header acc i
    obtain ⟨words',nr'⟩ := ih (roundFormatField acc i)
    exact ⟨words'.trans words,nr'.trans nr⟩

theorem roundFormatFields_covers (fields : List BchBkeyFields) {acc : BkeyFormat × Nat} {j : BchBkeyFields} {v : UInt64}
    (small : v.toNat < 2^(bch2BkeyFormatCurrent.bitsPerField j).toNat) (covers : FieldCovers acc.1 j v) :
    FieldCovers (roundFormatFields fields acc).1 j v := by
  induction fields generalizing acc with
  | nil => exact covers
  | cons i rest ih => exact ih (roundFormatField_covers acc i small covers)

theorem roundFormatFields_bits (fields : List BchBkeyFields) {acc : BkeyFormat × Nat} (fits : ∀ j, FieldFits acc.1 j) :
    bkeyFormatBits (roundFormatFields fields acc).1 + (roundFormatFields fields acc).2 = bkeyFormatBits acc.1 + acc.2 ∧
      (roundFormatFields fields acc).2 ≤ acc.2 := by
  induction fields generalizing acc with
  | nil => exact ⟨rfl,Nat.le_refl _⟩
  | cons i rest ih =>
    obtain ⟨total,falls⟩ := roundFormatField_bits acc i fits
    obtain ⟨total',falls'⟩ := ih (roundFormatField_fits acc i fits)
    exact ⟨total'.trans total,Nat.le_trans falls' falls⟩

theorem roundFormatFields_valid {f : BkeyFormat} {bits : Nat} (nr : f.nrFields.toNat = BKEY_NR_FIELDS)
    (fits : ∀ j, FieldFits f j) (counted : bkeyFormatBits f = bits) :
    bch2BkeyFormatInvalid
      (roundFormatFields bkeyFields ({f with keyU64s := (DIV_ROUND_UP bits 64).toUInt8},DIV_ROUND_UP bits 64*64 - bits)).1 =
        .ok () := by
  have wide := bkeyFormatBits_le fits
  have least : KEY_PACKED_BITS_START ≤ bkeyFormatBits f := Nat.le_add_right _ _
  generalize startDef : ({f with keyU64s := (DIV_ROUND_UP bits 64).toUInt8},DIV_ROUND_UP bits 64*64 - bits) = start
  have start_fits : ∀ j, FieldFits start.1 j := by
    rw [← startDef]
    exact fun j => FieldFits.congr (f := f) rfl rfl (fits j)
  have start_bits : bkeyFormatBits start.1 = bits := by rw [← startDef,← counted]; rfl
  obtain ⟨words,nrKept⟩ := roundFormatFields_header bkeyFields start
  obtain ⟨total,falls⟩ := roundFormatFields_bits bkeyFields start_fits
  have startWords : start.1.keyU64s = (DIV_ROUND_UP bits 64).toUInt8 := by rw [← startDef]
  have startSpare : start.2 = DIV_ROUND_UP bits 64*64 - bits := by rw [← startDef]
  have startNr : start.1.nrFields = f.nrFields := by rw [← startDef]
  apply bch2BkeyFormatInvalid_of_fits
  · rw [nrKept,startNr]
    exact nr
  · exact roundFormatFields_fits bkeyFields start_fits
  · rw [words,startWords]
    simp only [KEY_PACKED_BITS_START] at least
    simp only [Nat.toUInt8_eq,UInt8.toNat_ofNat',DIV_ROUND_UP] at total falls startSpare ⊢
    omega

-- bch2_bkey_format_done always makes a format bch2_bkey_format_invalid accepts,
-- given a state whose smallest size is 0, as every state from init is.
theorem bch2BkeyFormatDone_valid {s : BkeyFormatState} (zero : s.fieldMin .size = 0) :
    bch2BkeyFormatInvalid (bch2BkeyFormatDone s) = .ok () := by
  let start : BkeyFormat × Nat := (⟨0,BKEY_NR_FIELDS.toUInt8,fun _ => 0,fun _ => 0⟩,KEY_PACKED_BITS_START)
  have rangedFits := @setFormatFields_fits s bkeyFields start (zero_fits _)
  have rangedZero := @setFormatFields_offset_zero s bkeyFields start .size zero rfl
  have rangedBits : bkeyFormatBits (setFormatFields s bkeyFields start).1 = (setFormatFields s bkeyFields start).2 := by
    rw [setFormatFields_bits s (by decide) start]
    rfl
  have nr : (widenSizeField (setFormatFields s bkeyFields start)).1.nrFields.toNat = BKEY_NR_FIELDS := by
    rw [nrFields_widenSizeField,nrFields_setFormatFields]
    rfl
  unfold bch2BkeyFormatDone
  exact roundFormatFields_valid nr (widenSizeField_fits rangedFits rangedZero) (widenSizeField_bits rangedBits)

theorem bch2BkeyFormatDone_covers {s : BkeyFormatState} {i : BchBkeyFields} {v : UInt64} (spans : s.Spans i v)
    (small : v.toNat < 2^(bch2BkeyFormatCurrent.bitsPerField i).toNat) : FieldCovers (bch2BkeyFormatDone s) i v := by
  unfold bch2BkeyFormatDone
  apply roundFormatFields_covers bkeyFields small
  exact widenSizeField_covers (setFormatFields_covers s bkeyFields spans small (.inl (mem_bkeyFields i)))

end Done

section Packing

theorem Bkey.field_lt (k : Bkey) (i : BchBkeyFields) :
    (k.field i).toNat < 2^(bch2BkeyFormatCurrent.bitsPerField i).toNat := by
  cases i
  · exact k.p.inode.toNat_lt
  · exact k.p.offset.toNat_lt
  · exact (UInt32.toNat_toUInt64 _).symm ▸ k.p.snapshot.toNat_lt
  · exact (UInt32.toNat_toUInt64 _).symm ▸ k.size.toNat_lt
  · exact (UInt32.toNat_toUInt64 _).symm ▸ k.bversion.hi.toNat_lt
  · exact k.bversion.lo.toNat_lt

theorem Bkey.field_setField_self (k : Bkey) {v : UInt64} {i : BchBkeyFields}
    (small : v.toNat < 2^(bch2BkeyFormatCurrent.bitsPerField i).toNat) : (k.setField v i).field i = v := by
  cases i <;> first | rfl | exact toUInt64_toUInt32_of_lt small

theorem Bkey.field_setField_ne (k : Bkey) (v : UInt64) {i j : BchBkeyFields} (ne : j ≠ i) :
    (k.setField v i).field j = k.field j := by
  cases i <;> cases j <;> first | rfl | exact absurd rfl ne

theorem bch2BkeyPackKey_isSome_of_covers {f : BkeyFormat} {k : Bkey} (covers : ∀ i, FieldCovers f i (k.field i))
    (out : BkeyPacked) : (bch2BkeyPackKey out k f).isSome := by
  rw [bch2BkeyPackKey_eq,Option.isSome_map]
  exact (packFields_isSome f k bkeyFields _).mpr fun i _ => covers i

theorem setIncFieldLossy_of_covers {format : BkeyFormat} {field : BchBkeyFields} {v : UInt64}
    (covers : FieldCovers format field v) (state : PackState) :
    setIncFieldLossy format state field v = (rawSetIncField format state field (v - format.fieldOffset field),true) := by
  unfold setIncFieldLossy
  dsimp only
  rw [if_neg (by rw [gt_iff_lt,Nat.not_lt,fls64_le_iff]; exact covers.2)]

-- A position each of whose fields the format holds packs exactly: none of the
-- steps back below an offset is taken, and no field saturates.
theorem bch2BkeyPackPosLossy_exact {f : BkeyFormat} {p : Bpos} (inode : FieldCovers f .inode p.inode)
    (offset : FieldCovers f .offset p.offset) (snapshot : FieldCovers f .snapshot p.snapshot.toUInt64)
    (out : BkeyPacked) : (bch2BkeyPackPosLossy out p f).1 = .exact := by
  have snapshotAbove : ¬ p.snapshot.toUInt64 < f.fieldOffset .snapshot := UInt64.not_lt.mpr snapshot.1
  have offsetAbove : ¬ p.offset < f.fieldOffset .offset := UInt64.not_lt.mpr offset.1
  have inodeAbove : ¬ p.inode < f.fieldOffset .inode := UInt64.not_lt.mpr inode.1
  simp [bch2BkeyPackPosLossy,snapshotAbove,offsetAbove,inodeAbove,setIncFieldLossy_of_covers inode,
    setIncFieldLossy_of_covers offset,setIncFieldLossy_of_covers snapshot]

theorem bch2BkeyFormatInit_min_size : bch2BkeyFormatInit.fieldMin .size = 0 := rfl

-- Whatever keys and positions are added after bch2_bkey_format_init, the format
-- bch2_bkey_format_done makes is valid and packs every one of them.
theorem bkey_format_done_packs_added (adds : List BkeyFormatAdd) :
    bch2BkeyFormatInvalid (bch2BkeyFormatDone (adds.foldl BkeyFormatAdd.apply bch2BkeyFormatInit)) = .ok () ∧
      (∀ k, .key k ∈ adds → ∀ out,
        (bch2BkeyPackKey out k (bch2BkeyFormatDone (adds.foldl BkeyFormatAdd.apply bch2BkeyFormatInit))).isSome) ∧
      (∀ p, .pos p ∈ adds → ∀ out,
        bkeyPackPos out p (bch2BkeyFormatDone (adds.foldl BkeyFormatAdd.apply bch2BkeyFormatInit)) = true) := by
  have zero := foldl_apply_min_size adds bch2BkeyFormatInit_min_size
  refine ⟨bch2BkeyFormatDone_valid zero,fun k mem out => ?_,fun p mem out => ?_⟩
  · apply bch2BkeyPackKey_isSome_of_covers
    intro i
    exact bch2BkeyFormatDone_covers (foldl_apply_spans mem _ fun s => bch2BkeyFormatAddKey_spans s k i) (k.field_lt i)
  · have spans := fun s => bch2BkeyFormatAddPos_spans s p
    have inode := bch2BkeyFormatDone_covers (foldl_apply_spans mem bch2BkeyFormatInit fun s => (spans s).1) p.inode.toNat_lt
    have offset := bch2BkeyFormatDone_covers (foldl_apply_spans mem bch2BkeyFormatInit fun s => (spans s).2.1) p.offset.toNat_lt
    have snapshot := bch2BkeyFormatDone_covers (foldl_apply_spans mem bch2BkeyFormatInit fun s => (spans s).2.2)
      ((UInt32.toNat_toUInt64 _).symm ▸ p.snapshot.toNat_lt)
    rw [bkeyPackPos,bch2BkeyPackPosLossy_exact inode offset snapshot]
    rfl

-- One key of size 5: its 3 bits of size widen by 4 for extent merging and round
-- up to a byte, and every other field is empty with the key's value as offset.
example : (bch2BkeyFormatDone (bch2BkeyFormatAddKey bch2BkeyFormatInit ⟨5,1,false,0,0,⟨0,0⟩,5,⟨1,2,0⟩⟩)).bitsPerField
      .size = 8 ∧
    (bch2BkeyFormatDone (bch2BkeyFormatAddKey bch2BkeyFormatInit ⟨5,1,false,0,0,⟨0,0⟩,5,⟨1,2,0⟩⟩)).fieldOffset
      .offset = 2 := by decide

end Packing

end Bcachefs
