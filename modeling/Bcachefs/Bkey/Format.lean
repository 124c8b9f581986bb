import Mathlib

namespace Bcachefs

-- cmp_int(l, r) is ((l > r) - (l < r)); an Ordering carries the same three values,
-- and the `?:` chains of the comparators become Ordering.then.
def cmpInt {α : Type} [Ord α] (l r : α) : Ordering := compare l r

-- struct bpos. Its word order in memory follows the byte order; no modelled
-- function depends on it, only on the three fields.
structure Bpos where
  inode : UInt64
  offset : UInt64
  snapshot : UInt32
  deriving DecidableEq, Repr

def bposCmp (l r : Bpos) : Ordering :=
  (cmpInt l.inode r.inode).then ((cmpInt l.offset r.offset).then (cmpInt l.snapshot r.snapshot))

structure Bversion where
  hi : UInt32
  lo : UInt64
  deriving DecidableEq, Repr

-- struct bkey. `format` is a 7-bit field holding KEY_FORMAT_LOCAL_BTREE or
-- KEY_FORMAT_CURRENT.
structure Bkey where
  u64s : UInt8
  format : UInt8
  needsWhiteout : Bool
  type : UInt8
  pad : UInt8
  bversion : Bversion
  size : UInt32
  p : Bpos
  deriving DecidableEq, Repr

def KEY_FORMAT_LOCAL_BTREE : UInt8 := 0
def KEY_FORMAT_CURRENT : UInt8 := 1
def KEY_PACKED_BITS_START : Nat := 24
-- sizeof(struct bkey) / sizeof(u64)
def BKEY_U64s : UInt8 := 5

-- enum bch_bkey_fields, in the order of the bkey_fields() x-macro, which is
-- also the order the fields are packed in, most significant first.
inductive BchBkeyFields where
  | inode
  | offset
  | snapshot
  | size
  | versionHi
  | versionLo
  deriving DecidableEq, Repr

def BchBkeyFields.id : BchBkeyFields → Nat
  | .inode => 0
  | .offset => 1
  | .snapshot => 2
  | .size => 3
  | .versionHi => 4
  | .versionLo => 5

def BKEY_NR_FIELDS : Nat := 6

def bkeyFields : List BchBkeyFields := [.inode,.offset,.snapshot,.size,.versionHi,.versionLo]

-- The x-macro's `in->field`, widened to the u64 that set_inc_field takes.
def Bkey.field (k : Bkey) : BchBkeyFields → UInt64
  | .inode => k.p.inode
  | .offset => k.p.offset
  | .snapshot => k.p.snapshot.toUInt64
  | .size => k.size.toUInt64
  | .versionHi => k.bversion.hi.toUInt64
  | .versionLo => k.bversion.lo

-- The x-macro's `out.field = v`: the u32 fields keep the low 32 bits.
def Bkey.setField (k : Bkey) (v : UInt64) : BchBkeyFields → Bkey
  | .inode => {k with p := {k.p with inode := v}}
  | .offset => {k with p := {k.p with offset := v}}
  | .snapshot => {k with p := {k.p with snapshot := v.toUInt32}}
  | .size => {k with size := v.toUInt32}
  | .versionHi => {k with bversion := {k.bversion with hi := v.toUInt32}}
  | .versionLo => {k with bversion := {k.bversion with lo := v}}

-- struct bkey_format; field_offset is little endian on disk and read with
-- le64_to_cpu, the identity on the little-endian machines modelled here.
structure BkeyFormat where
  keyU64s : UInt8
  nrFields : UInt8
  bitsPerField : BchBkeyFields → UInt8
  fieldOffset : BchBkeyFields → UInt64

-- BKEY_FORMAT_CURRENT: each field at the width of struct bkey's member.
def bch2BkeyFormatCurrent : BkeyFormat where
  keyU64s := BKEY_U64s
  nrFields := 6
  bitsPerField
    | .inode => 64
    | .offset => 64
    | .snapshot => 32
    | .size => 32
    | .versionHi => 32
    | .versionLo => 64
  fieldOffset _ := 0

def bkeyFormatKeyBits (f : BkeyFormat) : Nat :=
  (f.bitsPerField .inode).toNat + (f.bitsPerField .offset).toNat + (f.bitsPerField .snapshot).toNat

def bch2BkeyFormatFieldOverflows (f : BkeyFormat) (i : BchBkeyFields) : Bool :=
  let fBits := (f.bitsPerField i).toNat
  let unpackedBits := (bch2BkeyFormatCurrent.bitsPerField i).toNat
  let unpackedMask : UInt64 := ~~~(((~~~0 : UInt64) <<< 1) <<< UInt64.ofNat (unpackedBits-1))
  let fieldOffset := f.fieldOffset i
  if fBits > unpackedBits then true
  else if fBits = unpackedBits ∧ fieldOffset ≠ 0 then true
  else
    let fMask : UInt64 := if fBits ≠ 0 then ~~~(((~~~0 : UInt64) <<< UInt64.ofNat (fBits-1)) <<< 1) else 0
    decide (((fieldOffset + fMask) &&& unpackedMask) < fieldOffset)

def DIV_ROUND_UP (n d : Nat) : Nat := (n + d - 1) / d

-- The field bits plus the header the packed key starts with.
def bkeyFormatBits (f : BkeyFormat) : Nat :=
  KEY_PACKED_BITS_START + (bkeyFields.map fun i => (f.bitsPerField i).toNat).sum

-- The message of the first failing field, as the loop prints it.
def fieldTooLarge (f : BkeyFormat) (i : BchBkeyFields) : String :=
  let unpackedBits := (bch2BkeyFormatCurrent.bitsPerField i).toNat
  let unpackedMax : UInt64 := ~~~(((~~~0 : UInt64) <<< 1) <<< UInt64.ofNat (unpackedBits-1))
  let packedBits := min 64 (f.bitsPerField i).toNat
  let packedMax : UInt64 := if packedBits ≠ 0 then ~~~(((~~~0 : UInt64) <<< 1) <<< UInt64.ofNat (packedBits-1)) else 0
  "field " ++ toString i.id ++ " too large: " ++ toString packedMax.toNat ++ " + " ++
    toString (f.fieldOffset i).toNat ++ " > " ++ toString unpackedMax.toNat

-- bch2_bkey_format_invalid: the error is the text it prints before returning
-- -BCH_ERR_invalid. The field loop stops at the first overflowing field.
def bch2BkeyFormatInvalid (f : BkeyFormat) : Except String Unit :=
  if f.nrFields.toNat ≠ BKEY_NR_FIELDS then
    .error ("incorrect number of fields: got " ++ toString f.nrFields.toNat ++ ", should be " ++
      toString BKEY_NR_FIELDS)
  else match bkeyFields.find? (bch2BkeyFormatFieldOverflows f) with
    | some i => .error (fieldTooLarge f i)
    | none =>
      if f.keyU64s.toNat ≠ DIV_ROUND_UP (bkeyFormatBits f) 64 then
        .error ("incorrect key_u64s: got " ++ toString f.keyU64s.toNat ++ ", should be " ++
          toString (DIV_ROUND_UP (bkeyFormatBits f) 64))
      else .ok ()

example : bch2BkeyFormatInvalid bch2BkeyFormatCurrent = .ok () := by decide

theorem mem_bkeyFields (i : BchBkeyFields) : i ∈ bkeyFields := by
  cases i <;> simp [bkeyFields]

theorem current_bits_le (i : BchBkeyFields) : (bch2BkeyFormatCurrent.bitsPerField i).toNat ≤ 64 := by
  cases i <;> decide

theorem bits_le_of_not_overflows {f : BkeyFormat} {i : BchBkeyFields}
    (fits : bch2BkeyFormatFieldOverflows f i = false) :
    (f.bitsPerField i).toNat ≤ (bch2BkeyFormatCurrent.bitsPerField i).toNat := by
  unfold bch2BkeyFormatFieldOverflows at fits
  by_cases wider : (f.bitsPerField i).toNat > (bch2BkeyFormatCurrent.bitsPerField i).toNat
  · simp [wider] at fits
  · omega

theorem format_valid_facts {f : BkeyFormat} (valid : bch2BkeyFormatInvalid f = .ok ()) :
    (∀ i, (f.bitsPerField i).toNat ≤ 64) ∧ f.keyU64s.toNat = DIV_ROUND_UP (bkeyFormatBits f) 64 := by
  unfold bch2BkeyFormatInvalid at valid
  split at valid
  · cases valid
  · split at valid
    · cases valid
    · rename_i none_overflows
      split at valid
      · cases valid
      · rename_i words
        refine ⟨fun i => ?_,by omega⟩
        have fits := List.find?_eq_none.mp none_overflows i (mem_bkeyFields i)
        exact Nat.le_trans (bits_le_of_not_overflows (by simpa using fits)) (current_bits_le i)

end Bcachefs
