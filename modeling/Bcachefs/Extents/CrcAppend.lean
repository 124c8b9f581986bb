import Bcachefs.Extents.Ptrs

namespace Bcachefs

-- extent_entry_u64s(): sizeof(struct bch_extent_*) / sizeof(u64). Only crc64 and
-- crc128 take more than one word.
def extentEntryU64s : BchExtentEntry → Nat
  | .crc c =>
    match c.type with
    | .crc32 => 1
    | .crc64 => 2
    | .crc128 => 3
  | _ => 1

-- struct bkey_i of a key with pointers as bch2_extent_crc_append writes it: k->k.u64s,
-- k->k.size and the entries of the value.
structure ExtentKeyI where
  u64s : Nat
  size : Nat
  entries : List BchExtentEntry
  deriving DecidableEq, Repr

-- bch2_extent_crc_append(k, new) on the whole key: the packed entry after the last one,
-- and k->k.u64s grown by its extent_entry_u64s.
def bch2ExtentCrcAppendKey (k : ExtentKeyI) (new : BchExtentCrcUnpacked) : Option ExtentKeyI :=
  (crcAppendType new).map fun type =>
    { k with u64s := k.u64s + extentEntryU64s (.crc (bch2ExtentCrcPack new type)),
             entries := k.entries ++ [.crc (bch2ExtentCrcPack new type)] }

-- The order of the three layouts, smallest first, and the checksum bytes each stores.
def crcTypeRank : BchExtentCrcType → Nat
  | .crc32 => 0
  | .crc64 => 1
  | .crc128 => 2

def crcTypeBytes : BchExtentCrcType → Nat
  | .crc32 => 4
  | .crc64 => 10
  | .crc128 => 16

-- What the append tests of a layout: the checksum's bytes, the uncompressed size and
-- the nonce.
def CrcLayoutAccepts (bytes : Nat) (u : BchExtentCrcUnpacked) (type : BchExtentCrcType) : Prop :=
  bytes ≤ crcTypeBytes type ∧ u.uncompressedSize ≤ bch2CrcFieldSizeMax type ∧ u.nonce ≤ crcNonceMax type

-- Every field of u fits the layout's bit fields: both sizes stored less one, the offset,
-- the nonce and the checksum bytes. csum_type and compression_type take 4 bits in all
-- three.
def CrcFieldsHold (u : BchExtentCrcUnpacked) (type : BchExtentCrcType) : Prop :=
  1 ≤ u.compressedSize ∧ u.compressedSize ≤ bch2CrcFieldSizeMax type ∧
    1 ≤ u.uncompressedSize ∧ u.uncompressedSize ≤ bch2CrcFieldSizeMax type ∧
    u.offset < bch2CrcFieldSizeMax type ∧ u.nonce ≤ crcNonceMax type ∧
    (bchCrcBytes u.csumType).getD 0 ≤ crcTypeBytes type

instance (u : BchExtentCrcUnpacked) (type : BchExtentCrcType) : Decidable (CrcFieldsHold u type) :=
  inferInstanceAs (Decidable (1 ≤ u.compressedSize ∧ u.compressedSize ≤ bch2CrcFieldSizeMax type ∧
    1 ≤ u.uncompressedSize ∧ u.uncompressedSize ≤ bch2CrcFieldSizeMax type ∧
    u.offset < bch2CrcFieldSizeMax type ∧ u.nonce ≤ crcNonceMax type ∧
    (bchCrcBytes u.csumType).getD 0 ≤ crcTypeBytes type))

section Choice

variable {u : BchExtentCrcUnpacked} {bytes : Nat}

theorem crcAppendType_first (found : bchCrcBytes u.csumType = some bytes) {type : BchExtentCrcType}
    (chosen : crcAppendType u = some type) :
    CrcLayoutAccepts bytes u type ∧ ∀ t, CrcLayoutAccepts bytes u t → crcTypeRank type ≤ crcTypeRank t := by
  unfold crcAppendType at chosen
  rw [found,Option.bind_eq_bind,Option.bind_some] at chosen
  by_cases small : bytes ≤ 4 ∧ u.uncompressedSize ≤ CRC32_SIZE_MAX ∧ u.nonce ≤ CRC32_NONCE_MAX
  · rw [if_pos small] at chosen
    cases chosen
    exact ⟨small,fun t _ => Nat.zero_le _⟩
  rw [if_neg small] at chosen
  by_cases middle : bytes ≤ 10 ∧ u.uncompressedSize ≤ CRC64_SIZE_MAX ∧ u.nonce ≤ CRC64_NONCE_MAX
  · rw [if_pos middle] at chosen
    cases chosen
    refine ⟨middle,fun t accepts => ?_⟩
    cases t with
    | crc32 => exact absurd accepts small
    | crc64 | crc128 => decide
  rw [if_neg middle] at chosen
  by_cases large : bytes ≤ 16 ∧ u.uncompressedSize ≤ CRC128_SIZE_MAX ∧ u.nonce ≤ CRC128_NONCE_MAX
  · rw [if_pos large] at chosen
    cases chosen
    refine ⟨large,fun t accepts => ?_⟩
    cases t with
    | crc32 => exact absurd accepts small
    | crc64 => exact absurd accepts middle
    | crc128 => exact le_rfl
  · rw [if_neg large] at chosen
    cases chosen

theorem CrcFieldsHold.accepts (found : bchCrcBytes u.csumType = some bytes) {t : BchExtentCrcType}
    (hold : CrcFieldsHold u t) : CrcLayoutAccepts bytes u t := by
  obtain ⟨_,_,_,uncompressed,_,nonce,csum⟩ := hold
  rw [found,Option.getD_some] at csum
  exact ⟨csum,uncompressed,nonce⟩

-- The append tests neither the compressed size nor the offset: a layout it accepts
-- holds them only through u's own bounds.
theorem CrcLayoutAccepts.hold (found : bchCrcBytes u.csumType = some bytes) {t : BchExtentCrcType}
    (accepts : CrcLayoutAccepts bytes u t) (compressedPos : 1 ≤ u.compressedSize)
    (compressedLe : u.compressedSize ≤ u.uncompressedSize) (offsetLt : u.offset < u.uncompressedSize) :
    CrcFieldsHold u t := by
  obtain ⟨csum,uncompressed,nonce⟩ := accepts
  refine ⟨compressedPos,by omega,by omega,uncompressed,by omega,nonce,?_⟩
  rw [found,Option.getD_some]
  exact csum

-- crc128 accepts every crc within its limits, so the append never reaches the BUG().
theorem crcAppendType_of_accepts (found : bchCrcBytes u.csumType = some bytes) (accepts : CrcLayoutAccepts bytes u .crc128) :
    ∃ type, crcAppendType u = some type := by
  unfold crcAppendType
  rw [found,Option.bind_eq_bind,Option.bind_some]
  split_ifs with small middle large
  · exact ⟨_,rfl⟩
  · exact ⟨_,rfl⟩
  · exact ⟨_,rfl⟩
  · exact absurd accepts large

theorem crcCsumFits_of_bytes (found : bchCrcBytes u.csumType = some bytes)
    (csumFits : ∀ bytes, bchCrcBytes u.csumType = some bytes →
      u.csum.lo.toNat < 2 ^ (8 * bytes) ∧ u.csum.hi.toNat < 2 ^ (8 * (bytes - 8)))
    {t : BchExtentCrcType} (room : bytes ≤ crcTypeBytes t) : crcCsumFits t u.csum := by
  obtain ⟨loFits,hiFits⟩ := csumFits bytes found
  cases t with
  | crc32 =>
    change bytes ≤ 4 at room
    have none : 8 * (bytes - 8) = 0 := by omega
    rw [none,Nat.pow_zero] at hiFits
    refine ⟨Nat.lt_of_lt_of_le loFits (Nat.pow_le_pow_right (by decide) (by omega)),UInt64.toNat_inj.mp ?_⟩
    rw [UInt64.toNat_zero]
    omega
  | crc64 =>
    change bytes ≤ 10 at room
    exact Nat.lt_of_lt_of_le hiFits (Nat.pow_le_pow_right (by decide) (by omega))
  | crc128 => trivial

end Choice

section Append

variable {u : BchExtentCrcUnpacked}

theorem bch2ExtentCrcAppendKey_spec (k : ExtentKeyI) (csumTypeLt : u.csumType < BCH_CSUM_NR)
    (compressionTypeLt : u.compressionType < 16) (compressedPos : 1 ≤ u.compressedSize)
    (compressedLe : u.compressedSize ≤ u.uncompressedSize) (offsetLt : u.offset < u.uncompressedSize)
    (csumFits : ∀ bytes, bchCrcBytes u.csumType = some bytes →
      u.csum.lo.toNat < 2 ^ (8 * bytes) ∧ u.csum.hi.toNat < 2 ^ (8 * (bytes - 8)))
    (uncompressedLe : u.uncompressedSize ≤ CRC128_SIZE_MAX) (nonceLe : u.nonce ≤ CRC128_NONCE_MAX) :
    ∃ type, bch2ExtentCrcAppendKey k u = some ⟨k.u64s + extentEntryU64s (.crc (bch2ExtentCrcPack u type)),k.size,
        k.entries ++ [.crc (bch2ExtentCrcPack u type)]⟩ ∧
      CrcFieldsHold u type ∧ (∀ t, CrcFieldsHold u t → crcTypeRank type ≤ crcTypeRank t) ∧
      bch2ExtentCrcUnpack k.size (some (bch2ExtentCrcPack u type)) = { u with liveSize := k.size } := by
  obtain ⟨bytes,found⟩ := bchCrcBytes_of_lt csumTypeLt
  obtain ⟨type,chosen⟩ := crcAppendType_of_accepts found ⟨bchCrcBytes_le found,uncompressedLe,nonceLe⟩
  obtain ⟨accepts,first⟩ := crcAppendType_first found chosen
  have hold := accepts.hold found compressedPos compressedLe offsetLt
  refine ⟨type,by rw [bch2ExtentCrcAppendKey,chosen]; rfl,hold,fun t holdT => first t (holdT.accepts found),?_⟩
  -- pack reads no live_size, so u with the key's size packs the same
  have packed : bch2ExtentCrcPack u type = bch2ExtentCrcPack { u with liveSize := k.size } type := rfl
  obtain ⟨_,_,_,uncompressedFits,offsetFits,nonceFits,_⟩ := hold
  rw [packed]
  exact unpack_bch2ExtentCrcPack rfl (by exact compressedPos) compressedLe uncompressedFits offsetFits nonceFits
    (Nat.lt_trans csumTypeLt (by decide)) compressionTypeLt (crcCsumFits_of_bytes found csumFits accepts.1)

end Append

-- Callers pass live_size = k->k.size, never 0, which keeps offset below uncompressed_size.
theorem extent_crc_append_smallest_layout (u : BchExtentCrcUnpacked) (csumTypeLt : u.csumType < BCH_CSUM_NR)
    (compressionTypeLt : u.compressionType < 16) (compressedPos : 1 ≤ u.compressedSize)
    (compressedLe : u.compressedSize ≤ u.uncompressedSize)
    (within : u.offset + u.liveSize ≤ u.uncompressedSize) (livePos : 0 < u.liveSize)
    (csumFits : ∀ bytes, bchCrcBytes u.csumType = some bytes →
      u.csum.lo.toNat < 2 ^ (8 * bytes) ∧ u.csum.hi.toNat < 2 ^ (8 * (bytes - 8)))
    (uncompressedLe : u.uncompressedSize ≤ CRC128_SIZE_MAX) (nonceLe : u.nonce ≤ CRC128_NONCE_MAX) (k : ExtentKeyI) :
    ∃ type, bch2ExtentCrcAppendKey k u = some ⟨k.u64s + extentEntryU64s (.crc (bch2ExtentCrcPack u type)),k.size,
        k.entries ++ [.crc (bch2ExtentCrcPack u type)]⟩ ∧
      CrcFieldsHold u type ∧ (∀ t, CrcFieldsHold u t → crcTypeRank type ≤ crcTypeRank t) ∧
      bch2ExtentCrcUnpack k.size (some (bch2ExtentCrcPack u type)) = { u with liveSize := k.size } :=
  bch2ExtentCrcAppendKey_spec k csumTypeLt compressionTypeLt compressedPos compressedLe (by omega) csumFits
    uncompressedLe nonceLe

-- An lz4 crc32c extent of 16 sectors, 4 on disk, 8 live from offset 4.
def crcAppendTestCrc : BchExtentCrcUnpacked :=
  ⟨4,16,8,BCH_CSUM_crc32c,BCH_COMPRESSION_TYPE_lz4,4,0,⟨0xdeadbeef,0⟩⟩

theorem extent_crc_append_test :
    ∃ type, bch2ExtentCrcAppendKey ⟨3,8,[]⟩ crcAppendTestCrc =
        some ⟨3 + extentEntryU64s (.crc (bch2ExtentCrcPack crcAppendTestCrc type)),8,
          [.crc (bch2ExtentCrcPack crcAppendTestCrc type)]⟩ ∧
      CrcFieldsHold crcAppendTestCrc type ∧ (∀ t, CrcFieldsHold crcAppendTestCrc t → crcTypeRank type ≤ crcTypeRank t) ∧
      bch2ExtentCrcUnpack 8 (some (bch2ExtentCrcPack crcAppendTestCrc type)) = { crcAppendTestCrc with liveSize := 8 } :=
  extent_crc_append_smallest_layout crcAppendTestCrc (by decide) (by decide) (by decide) (by decide)
    (by decide) (by decide) (fun bytes found => by cases found; decide) (by decide) (by decide) ⟨3,8,[]⟩

end Bcachefs
