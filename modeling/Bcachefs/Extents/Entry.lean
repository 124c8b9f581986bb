import Bcachefs.Bkey.Format
import Bcachefs.Lib.Loop

namespace Bcachefs
open Loop

-- enum bch_compression_type and enum bch_csum_type. The crc entries hold them in
-- 4-bit fields that also hold values past the last type, so they stay numbers.
def BCH_COMPRESSION_TYPE_none : Nat := 0
def BCH_COMPRESSION_TYPE_lz4 : Nat := 3
def BCH_COMPRESSION_TYPE_zstd : Nat := 4
def BCH_COMPRESSION_TYPE_incompressible : Nat := 5
def BCH_COMPRESSION_TYPE_NR : Nat := 6

def BCH_CSUM_none : Nat := 0
def BCH_CSUM_chacha20_poly1305_80 : Nat := 3
def BCH_CSUM_chacha20_poly1305_128 : Nat := 4
def BCH_CSUM_crc32c : Nat := 5
def BCH_CSUM_crc64 : Nat := 6
def BCH_CSUM_NR : Nat := 8

def bch2CsumTypeIsEncryption (type : Nat) : Bool :=
  type == BCH_CSUM_chacha20_poly1305_80 || type == BCH_CSUM_chacha20_poly1305_128

def bch2ChecksumMergeable (type : Nat) : Bool :=
  type == BCH_CSUM_none || type == BCH_CSUM_crc32c || type == BCH_CSUM_crc64

structure BchCsum where
  lo : UInt64
  hi : UInt64
  deriving DecidableEq, Repr

-- struct bch_extent_ptr: a 44-bit sector offset, 8-bit device and generation.
structure BchExtentPtr where
  cached : Bool
  unwritten : Bool
  offset : Nat
  dev : Nat
  gen : Nat
  offsetLt : offset < 2^44
  devLt : dev < 2^8
  genLt : gen < 2^8
  deriving DecidableEq, Repr

-- BCH_EXTENT_ENTRY_crc32, _crc64 and _crc128: the three layouts of a checksum entry.
inductive BchExtentCrcType where
  | crc32
  | crc64
  | crc128
  deriving DecidableEq, Repr

def CRC32_SIZE_MAX : Nat := 1 <<< 7
def CRC64_SIZE_MAX : Nat := 1 <<< 9
def CRC128_SIZE_MAX : Nat := 1 <<< 13
def CRC32_NONCE_MAX : Nat := 0
def CRC64_NONCE_MAX : Nat := (1 <<< 10) - 1
def CRC128_NONCE_MAX : Nat := (1 <<< 13) - 1

-- bch2_crc_field_size_max[]: one past the largest size, and offset, a layout stores.
def bch2CrcFieldSizeMax : BchExtentCrcType → Nat
  | .crc32 => CRC32_SIZE_MAX
  | .crc64 => CRC64_SIZE_MAX
  | .crc128 => CRC128_SIZE_MAX

def crcNonceMax : BchExtentCrcType → Nat
  | .crc32 => CRC32_NONCE_MAX
  | .crc64 => CRC64_NONCE_MAX
  | .crc128 => CRC128_NONCE_MAX

-- The checksum bits each layout stores: 32 in crc32, 64 + 16 in crc64, all of
-- struct bch_csum in crc128.
def crcCsumFits : BchExtentCrcType → BchCsum → Prop
  | .crc32, csum => csum.lo.toNat < 2^32 ∧ csum.hi = 0
  | .crc64, csum => csum.hi.toNat < 2^16
  | .crc128, _ => True

-- struct bch_extent_crc32/64/128: sizes stored less one, every field in the
-- width its layout gives it (crc32 has no nonce).
structure BchExtentCrc where
  type : BchExtentCrcType
  rawCompressedSize : Nat
  rawUncompressedSize : Nat
  offset : Nat
  nonce : Nat
  csumType : Nat
  compressionType : Nat
  csum : BchCsum
  rawCompressedSizeLt : rawCompressedSize < bch2CrcFieldSizeMax type
  rawUncompressedSizeLt : rawUncompressedSize < bch2CrcFieldSizeMax type
  offsetLt : offset < bch2CrcFieldSizeMax type
  nonceLe : nonce ≤ crcNonceMax type
  csumTypeLt : csumType < 16
  compressionTypeLt : compressionType < 16
  csumFits : crcCsumFits type csum
  deriving DecidableEq, Repr

-- The bounds that the sample entries of the extent modules share, proved once so that
-- every sample cites the same proof.
theorem zero_lt_extentPtrFieldMax : (0 : Nat) < 2^8 := by decide

theorem csumNone_lt : BCH_CSUM_none < 16 := by decide

theorem zero_le_crc32NonceMax : 0 ≤ crcNonceMax .crc32 := Nat.zero_le _

theorem crcCsumFits_crc32_zero : crcCsumFits .crc32 ⟨0,0⟩ := ⟨by decide,rfl⟩

-- struct bch_extent_stripe_ptr, compared field by field only.
structure BchExtentStripePtr where
  block : Nat
  redundancy : Nat
  idx : Nat
  deriving DecidableEq, Repr

-- union bch_extent_entry, by its type. The rebalance and flags entries carry
-- nothing the pointer code reads.
inductive BchExtentEntry where
  | ptr (p : BchExtentPtr)
  | crc (c : BchExtentCrc)
  | stripePtr (s : BchExtentStripePtr)
  | rebalance
  | flags
  deriving DecidableEq, Repr

-- extent_entry_type(): enum bch_extent_entry_type.
def BchExtentEntry.type : BchExtentEntry → Nat
  | .ptr _ => 0
  | .crc c =>
    match c.type with
    | .crc32 => 1
    | .crc64 => 2
    | .crc128 => 3
  | .stripePtr _ => 4
  | .rebalance => 5
  | .flags => 6

def extentEntryIsPtr (e : BchExtentEntry) : Bool := e.type == 0

def extentEntryIsCrc (e : BchExtentEntry) : Bool := e.type == 1 || e.type == 2 || e.type == 3

@[simp] theorem extentEntryIsPtr_ptr (p : BchExtentPtr) : extentEntryIsPtr (.ptr p) = true := rfl
@[simp] theorem extentEntryIsPtr_crc (c : BchExtentCrc) : extentEntryIsPtr (.crc c) = false := by
  unfold extentEntryIsPtr BchExtentEntry.type
  dsimp only
  cases c.type <;> rfl
@[simp] theorem extentEntryIsPtr_stripePtr (s : BchExtentStripePtr) : extentEntryIsPtr (.stripePtr s) = false := rfl
@[simp] theorem extentEntryIsPtr_rebalance : extentEntryIsPtr .rebalance = false := rfl
@[simp] theorem extentEntryIsPtr_flags : extentEntryIsPtr .flags = false := rfl

@[simp] theorem extentEntryIsCrc_ptr (p : BchExtentPtr) : extentEntryIsCrc (.ptr p) = false := rfl
@[simp] theorem extentEntryIsCrc_crc (c : BchExtentCrc) : extentEntryIsCrc (.crc c) = true := by
  unfold extentEntryIsCrc BchExtentEntry.type
  dsimp only
  cases c.type <;> rfl
@[simp] theorem extentEntryIsCrc_stripePtr (s : BchExtentStripePtr) : extentEntryIsCrc (.stripePtr s) = false := rfl
@[simp] theorem extentEntryIsCrc_rebalance : extentEntryIsCrc .rebalance = false := rfl
@[simp] theorem extentEntryIsCrc_flags : extentEntryIsCrc .flags = false := rfl

-- struct bch_stripe, the fields the pointer code reads.
structure BchStripe where
  sectors : Nat
  nrBlocks : Nat
  nrRedundant : Nat
  ptrs : List BchExtentPtr
  deriving DecidableEq, Repr

-- The values of the key types that hold extent pointers, by key type.
inductive BkeyPtrsVal where
  | btreePtr (entries : List BchExtentEntry)
  | extent (entries : List BchExtentEntry)
  | stripe (s : BchStripe)
  | reflinkV (entries : List BchExtentEntry)
  | btreePtrV2 (entries : List BchExtentEntry)
  deriving DecidableEq, Repr

-- struct bkey_s_c for those key types: k->p, the u32 k->size and the value.
structure BkeyPtrsKey where
  p : Bpos
  size : Nat
  v : BkeyPtrsVal
  sizeLt : size < 2^32
  deriving DecidableEq, Repr

-- bch2_bkey_ptrs_c(): the entries of the value; a stripe's are its block pointers.
def bch2BkeyPtrsC (k : BkeyPtrsKey) : List BchExtentEntry :=
  match k.v with
  | .btreePtr entries | .extent entries | .reflinkV entries | .btreePtrV2 entries => entries
  | .stripe s => s.ptrs.map .ptr

-- bkey_for_each_ptr(): the pointer entries alone.
def bkeyPtrs (k : BkeyPtrsKey) : List BchExtentPtr :=
  (bch2BkeyPtrsC k).filterMap fun e =>
    match e with
    | .ptr p => some p
    | _ => none

def bkeyIsBtreePtr (k : BkeyPtrsKey) : Bool :=
  match k.v with
  | .btreePtr _ | .btreePtrV2 _ => true
  | _ => false

def bkeyIsExtent (k : BkeyPtrsKey) : Bool :=
  match k.v with
  | .extent _ => true
  | _ => false

-- struct bch_extent_crc_unpacked
structure BchExtentCrcUnpacked where
  compressedSize : Nat
  uncompressedSize : Nat
  liveSize : Nat
  csumType : Nat
  compressionType : Nat
  offset : Nat
  nonce : Nat
  csum : BchCsum
  deriving DecidableEq, Repr

-- bch2_extent_crc_unpack(k, crc); no crc entry stands for the whole key, unchecksummed.
def bch2ExtentCrcUnpack (size : Nat) : Option BchExtentCrc → BchExtentCrcUnpacked
  | none => ⟨size,size,size,0,0,0,0,⟨0,0⟩⟩
  | some crc =>
    ⟨crc.rawCompressedSize + 1,crc.rawUncompressedSize + 1,size,crc.csumType,crc.compressionType,crc.offset,
      (match crc.type with
        | .crc32 => 0
        | _ => crc.nonce),crc.csum⟩

def crcIsCompressed (crc : BchExtentCrcUnpacked) : Bool :=
  crc.compressionType != BCH_COMPRESSION_TYPE_none && crc.compressionType != BCH_COMPRESSION_TYPE_incompressible

def crcIsEncoded (crc : BchExtentCrcUnpacked) : Bool := crc.csumType != BCH_CSUM_none || crcIsCompressed crc

-- `x - 1` on a u32.
def u32Pred (x : Nat) : Nat := (x + (2^32 - 1)) % 2^32

-- bch2_extent_crc_pack(dst, src, type): each field cut to its bitfield.
def bch2ExtentCrcPack (src : BchExtentCrcUnpacked) (type : BchExtentCrcType) : BchExtentCrc where
  type := type
  rawCompressedSize := u32Pred src.compressedSize % bch2CrcFieldSizeMax type
  rawUncompressedSize := u32Pred src.uncompressedSize % bch2CrcFieldSizeMax type
  offset := src.offset % bch2CrcFieldSizeMax type
  nonce := src.nonce % (crcNonceMax type + 1)
  csumType := src.csumType % 16
  compressionType := src.compressionType % 16
  csum :=
    match type with
    | .crc32 => ⟨src.csum.lo % (2^32 : Nat).toUInt64,0⟩
    | .crc64 => ⟨src.csum.lo,src.csum.hi % (2^16 : Nat).toUInt64⟩
    | .crc128 => src.csum
  rawCompressedSizeLt := Nat.mod_lt _ (by cases type <;> decide)
  rawUncompressedSizeLt := Nat.mod_lt _ (by cases type <;> decide)
  offsetLt := Nat.mod_lt _ (by cases type <;> decide)
  nonceLe := Nat.le_of_lt_succ (Nat.mod_lt _ (Nat.succ_pos _))
  csumTypeLt := Nat.mod_lt _ (by decide)
  compressionTypeLt := Nat.mod_lt _ (by decide)
  csumFits := by
    cases type with
    | crc32 =>
      refine ⟨?_,rfl⟩
      rw [UInt64.toNat_mod]
      exact Nat.mod_lt _ (by decide)
    | crc64 =>
      show (src.csum.hi % (2^16 : Nat).toUInt64).toNat < 2^16
      rw [UInt64.toNat_mod]
      exact Nat.mod_lt _ (by decide)
    | crc128 => trivial

theorem mod_toUInt64_of_lt {x : UInt64} {n : Nat} (small : x.toNat < n) (fits : n < 2^64) : x % n.toUInt64 = x := by
  apply UInt64.toNat_inj.mp
  rw [UInt64.toNat_mod,show n.toUInt64.toNat = n % 2^64 from UInt64.toNat_ofNat',Nat.mod_eq_of_lt fits,
    Nat.mod_eq_of_lt small]

theorem unpack_bch2ExtentCrcPack {size : Nat} {crc : BchExtentCrcUnpacked} {type : BchExtentCrcType}
    (live : crc.liveSize = size) (compressedPos : 0 < crc.compressedSize)
    (compressedLe : crc.compressedSize ≤ crc.uncompressedSize)
    (uncompressedLe : crc.uncompressedSize ≤ bch2CrcFieldSizeMax type) (offsetLt : crc.offset < bch2CrcFieldSizeMax type)
    (nonceLe : crc.nonce ≤ crcNonceMax type) (csumTypeLt : crc.csumType < 16) (compressionTypeLt : crc.compressionType < 16)
    (csumFits : crcCsumFits type crc.csum) :
    bch2ExtentCrcUnpack size (some (bch2ExtentCrcPack crc type)) = crc := by
  obtain ⟨compressed,uncompressed,liveSize,csumType,compressionType,offset,nonce,⟨lo,hi⟩⟩ := crc
  dsimp only at *
  subst live
  have maxLe : bch2CrcFieldSizeMax type ≤ 2^13 := by cases type <;> decide
  -- the sizes are stored less one
  have pred : ∀ x, 0 < x → x ≤ bch2CrcFieldSizeMax type → u32Pred x % bch2CrcFieldSizeMax type + 1 = x := by
    intro x pos le
    unfold u32Pred
    rw [Nat.mod_eq_of_lt (by omega : (x + (2^32 - 1)) % 2^32 < bch2CrcFieldSizeMax type)]
    omega
  unfold bch2ExtentCrcPack bch2ExtentCrcUnpack
  cases type with
  | crc32 =>
    obtain ⟨loFits,rfl⟩ := csumFits
    have zero : nonce = 0 := Nat.le_zero.mp nonceLe
    simp only [BchExtentCrcUnpacked.mk.injEq]
    refine ⟨pred _ compressedPos (by omega),pred _ (by omega) uncompressedLe,trivial,Nat.mod_eq_of_lt csumTypeLt,
      Nat.mod_eq_of_lt compressionTypeLt,Nat.mod_eq_of_lt offsetLt,zero.symm,?_⟩
    rw [mod_toUInt64_of_lt loFits (by decide)]
  | crc64 =>
    simp only [BchExtentCrcUnpacked.mk.injEq]
    refine ⟨pred _ compressedPos (by omega),pred _ (by omega) uncompressedLe,trivial,Nat.mod_eq_of_lt csumTypeLt,
      Nat.mod_eq_of_lt compressionTypeLt,Nat.mod_eq_of_lt offsetLt,Nat.mod_eq_of_lt (Nat.lt_succ_of_le nonceLe),?_⟩
    rw [mod_toUInt64_of_lt (show hi.toNat < 2^16 from csumFits) (by decide)]
  | crc128 =>
    simp only [BchExtentCrcUnpacked.mk.injEq]
    exact ⟨pred _ compressedPos (by omega),pred _ (by omega) uncompressedLe,trivial,Nat.mod_eq_of_lt csumTypeLt,
      Nat.mod_eq_of_lt compressionTypeLt,Nat.mod_eq_of_lt offsetLt,Nat.mod_eq_of_lt (Nat.lt_succ_of_le nonceLe),trivial⟩

-- struct extent_ptr_decoded: a pointer with the crc and stripe entries before it.
structure ExtentPtrDecoded where
  hasEc : Bool
  crc : BchExtentCrcUnpacked
  ptr : BchExtentPtr
  ec : BchExtentStripePtr
  deriving DecidableEq, Repr

-- The walk of __bkey_ptr_next_decode from one entry on: the crc carries over
-- from pointer to pointer, has_ec starts false again after each pointer, and
-- `ec` keeps the last stripe entry seen.
def bkeyPtrsDecodeFrom (size : Nat) (crc : BchExtentCrcUnpacked) (hasEc : Bool) (ec : BchExtentStripePtr) :
    List BchExtentEntry → List ExtentPtrDecoded
  | [] => []
  | .ptr p :: rest => ⟨hasEc,crc,p,ec⟩ :: bkeyPtrsDecodeFrom size crc false ec rest
  | .crc c :: rest => bkeyPtrsDecodeFrom size (bch2ExtentCrcUnpack size (some c)) hasEc ec rest
  | .stripePtr s :: rest => bkeyPtrsDecodeFrom size crc true s rest
  | .rebalance :: rest | .flags :: rest => bkeyPtrsDecodeFrom size crc hasEc ec rest

-- bkey_for_each_ptr_decode(k, ptrs, p, entry): the pointers it visits, in order.
def bkeyPtrsDecode (size : Nat) (entries : List BchExtentEntry) : List ExtentPtrDecoded :=
  bkeyPtrsDecodeFrom size (bch2ExtentCrcUnpack size none) false ⟨0,0,0⟩ entries

-- struct bch_member_cpu, the geometry the pointer code reads.
structure BchDev where
  nbuckets : UInt64
  firstBucket : UInt16
  bucketSize : UInt16
  deriving DecidableEq, Repr

def sectorToBucket (ca : BchDev) (s : UInt64) : UInt64 := s / ca.bucketSize.toUInt64

def bucketToSector (ca : BchDev) (b : UInt64) : UInt64 := b * ca.bucketSize.toUInt64

-- sector_to_bucket_and_offset(ca, s, &offset): the bucket, and the u32 remainder.
def sectorToBucketAndOffset (ca : BchDev) (s : UInt64) : UInt64 × UInt32 :=
  (s / ca.bucketSize.toUInt64,(s % ca.bucketSize.toUInt64).toUInt32)

def ptrBucketNr (ca : BchDev) (ptr : BchExtentPtr) : UInt64 := sectorToBucket ca ptr.offset.toUInt64

def ptrBucketPos (ca : BchDev) (ptr : BchExtentPtr) : Bpos := ⟨ptr.dev.toUInt64,ptrBucketNr ca ptr,0⟩

-- struct bch_fs as the pointer code reads it: bch2_dev_rcu() by index, the
-- encoded_extent_max option in bytes, whether an encryption key is loaded, and
-- btree_sectors(c).
structure BchFs where
  dev : Nat → Option BchDev
  encodedExtentMax : Nat
  chacha20KeySet : Bool
  btreeSectors : Nat

-- The BCH_VALIDATE_* flags bch2_bkey_ptrs_validate tests.
structure BkeyValidateContext where
  write : Bool
  commit : Bool
  deriving DecidableEq, Repr

-- The fsck errors of extent_ptr_validate and bch2_bkey_ptrs_validate; the first
-- one found is returned.
inductive BchFsckErr where
  | ptrToDuplicateDevice
  | ptrAfterLastBucket
  | ptrBeforeFirstBucket
  | ptrSpansMultipleBuckets
  | btreePtrHasNonPtr
  | ptrCachedAndErasureCoded
  | ptrCrcCsumTypeUnknown
  | ptrCrcCompressionTypeUnknown
  | ptrCrcUncompressedSizeTooSmall
  | ptrCrcUncompressedSizeTooBig
  | ptrCrcUncompressedSizeMismatch
  | ptrCrcNonceMismatch
  | ptrCrcRedundant
  | ptrStripeRedundant
  | extentFlagsNotAtStart
  | extentPtrsNoPtrs
  | extentPtrsTooManyPtrs
  | extentPtrsWrittenAndUnwritten
  | extentPtrsUnwritten
  | extentPtrsRedundantCrc
  | extentPtrsRedundantStripe
  deriving DecidableEq, Repr

def fsckErrOn (cond : Bool) (err : BchFsckErr) : Except BchFsckErr Unit :=
  if cond then .error err else .ok ()

def bch2ChecksumTypeValid (c : BchFs) (type : Nat) : Bool :=
  if type ≥ BCH_CSUM_NR then false
  else if bch2CsumTypeIsEncryption type && !c.chacha20KeySet then false
  else true

def UINT_MAX : Nat := 2^32 - 1
def BCH_BKEY_PTRS_MAX : Nat := 16

-- extent_ptr_validate(c, k, from, ptr, size_ondisk, metadata). `ptrs` are all the
-- key's pointers, this one among them; a device that is not there is left to
-- check_fix_ptrs().
def extentPtrValidate (c : BchFs) (ptrs : List BchExtentPtr) (ptr : BchExtentPtr) (sizeOndisk : Nat) :
    Except BchFsckErr Unit := do
  fsckErrOn (1 < (ptrs.map (·.dev)).count ptr.dev) .ptrToDuplicateDevice
  match c.dev ptr.dev with
  | none => pure ()
  | some ca =>
    let (bucket,bucketOffset) := sectorToBucketAndOffset ca ptr.offset.toUInt64
    fsckErrOn (bucket ≥ ca.nbuckets) .ptrAfterLastBucket
    fsckErrOn (bucket < ca.firstBucket.toUInt64) .ptrBeforeFirstBucket
    fsckErrOn (bucketOffset + sizeOndisk.toUInt32 > ca.bucketSize.toUInt32) .ptrSpansMultipleBuckets

-- The locals bch2_bkey_ptrs_validate carries from entry to entry.
structure PtrsValidateState where
  sizeOndisk : Nat
  nonce : Nat
  nrPtrs : Nat
  haveWritten : Bool
  haveUnwritten : Bool
  haveEc : Bool
  crcSinceLastPtr : Bool
  deriving DecidableEq, Repr

-- The checks bch2_bkey_ptrs_validate makes of one crc entry, unpacked.
def crcValidate (c : BchFs) (context : BkeyValidateContext) (crc : BchExtentCrcUnpacked) (st : PtrsValidateState) :
    Except BchFsckErr PtrsValidateState := do
  fsckErrOn (!bch2ChecksumTypeValid c crc.csumType) .ptrCrcCsumTypeUnknown
  fsckErrOn (crc.compressionType ≥ BCH_COMPRESSION_TYPE_NR) .ptrCrcCompressionTypeUnknown
  -- u16 + u32, compared as unsigned int
  fsckErrOn ((crc.offset + crc.liveSize) % 2^32 > crc.uncompressedSize) .ptrCrcUncompressedSizeTooSmall
  fsckErrOn (crcIsEncoded crc && crc.uncompressedSize > c.encodedExtentMax >>> 9 && (context.write || context.commit))
    .ptrCrcUncompressedSizeTooBig
  fsckErrOn (!crcIsCompressed crc && crc.compressedSize != crc.uncompressedSize) .ptrCrcUncompressedSizeMismatch
  let nonce ←
    if bch2CsumTypeIsEncryption crc.csumType then
      if st.nonce = UINT_MAX then pure (crc.offset + crc.nonce)
      else if st.nonce ≠ crc.offset + crc.nonce then throw .ptrCrcNonceMismatch
      else pure st.nonce
    else pure st.nonce
  fsckErrOn st.crcSinceLastPtr .ptrCrcRedundant
  pure { st with nonce := nonce, crcSinceLastPtr := true, sizeOndisk := crc.compressedSize }

-- One pass of bch2_bkey_ptrs_validate's loop; `first` is entry == ptrs.start.
def ptrsValidateEntry (c : BchFs) (context : BkeyValidateContext) (k : BkeyPtrsKey) (first : Bool)
    (st : PtrsValidateState) (entry : BchExtentEntry) : Except BchFsckErr PtrsValidateState := do
  fsckErrOn (bkeyIsBtreePtr k && !extentEntryIsPtr entry) .btreePtrHasNonPtr
  match entry with
  | .ptr p =>
    extentPtrValidate c (bkeyPtrs k) p st.sizeOndisk
    fsckErrOn (p.cached && st.haveEc) .ptrCachedAndErasureCoded
    pure ⟨st.sizeOndisk,st.nonce,st.nrPtrs + 1,st.haveWritten || !p.unwritten,st.haveUnwritten || p.unwritten,false,
      false⟩
  | .crc crc => crcValidate c context (bch2ExtentCrcUnpack k.size (some crc)) st
  | .stripePtr _ =>
    fsckErrOn st.haveEc .ptrStripeRedundant
    pure { st with haveEc := true }
  | .rebalance => pure st
  | .flags =>
    fsckErrOn (!first) .extentFlagsNotAtStart
    pure st

def ptrsValidateLoop (c : BchFs) (context : BkeyValidateContext) (k : BkeyPtrsKey) :
    Bool → PtrsValidateState → List BchExtentEntry → Except BchFsckErr PtrsValidateState
  | _, st, [] => pure st
  | first, st, entry :: rest => do
    let st' ← ptrsValidateEntry c context k first st entry
    ptrsValidateLoop c context k false st' rest

def bch2BkeyPtrsValidate (c : BchFs) (context : BkeyValidateContext) (k : BkeyPtrsKey) : Except BchFsckErr Unit := do
  let start : PtrsValidateState :=
    ⟨if bkeyIsBtreePtr k then c.btreeSectors else k.size,UINT_MAX,0,false,false,false,false⟩
  let st ← ptrsValidateLoop c context k true start (bch2BkeyPtrsC k)
  fsckErrOn (st.nrPtrs = 0) .extentPtrsNoPtrs
  fsckErrOn (st.nrPtrs > BCH_BKEY_PTRS_MAX) .extentPtrsTooManyPtrs
  fsckErrOn (st.haveWritten && st.haveUnwritten) .extentPtrsWrittenAndUnwritten
  fsckErrOn (!bkeyIsExtent k && st.haveUnwritten) .extentPtrsUnwritten
  fsckErrOn st.crcSinceLastPtr .extentPtrsRedundantCrc
  fsckErrOn st.haveEc .extentPtrsRedundantStripe

section Decode

variable {size : Nat}

theorem mem_bkeyPtrsDecodeFrom {d : ExtentPtrDecoded} {entries : List BchExtentEntry} :
    ∀ {crc hasEc ec}, d ∈ bkeyPtrsDecodeFrom size crc hasEc ec entries →
      .ptr d.ptr ∈ entries ∧ (d.crc = crc ∨ ∃ c, .crc c ∈ entries ∧ d.crc = bch2ExtentCrcUnpack size (some c)) := by
  induction entries with
  | nil => intro _ _ _ member; cases member
  | cons entry rest ih =>
    intro crc hasEc ec member
    -- what the rest of the walk gives holds of the whole list, from any entry
    have extend : ∀ {crc' : BchExtentCrcUnpacked},
        (.ptr d.ptr ∈ rest ∧ (d.crc = crc' ∨ ∃ c, .crc c ∈ rest ∧ d.crc = bch2ExtentCrcUnpack size (some c))) →
          (crc' = crc ∨ ∃ c, entry = .crc c ∧ crc' = bch2ExtentCrcUnpack size (some c)) →
          .ptr d.ptr ∈ entry :: rest ∧
            (d.crc = crc ∨ ∃ c, .crc c ∈ entry :: rest ∧ d.crc = bch2ExtentCrcUnpack size (some c)) := by
      rintro crc' ⟨inRest,same | ⟨c,cMember,unpacked⟩⟩ start
      · refine ⟨List.mem_cons_of_mem _ inRest,?_⟩
        rcases start with rfl | ⟨c,rfl,rfl⟩
        · exact .inl same
        · exact .inr ⟨c,List.mem_cons_self,same⟩
      · exact ⟨List.mem_cons_of_mem _ inRest,.inr ⟨c,List.mem_cons_of_mem _ cMember,unpacked⟩⟩
    cases entry with
    | ptr p =>
      rcases List.mem_cons.mp member with rfl | later
      · exact ⟨List.mem_cons_self,.inl rfl⟩
      · exact extend (ih later) (.inl rfl)
    | crc c => exact extend (ih member) (.inr ⟨c,rfl,rfl⟩)
    | stripePtr s => exact extend (ih member) (.inl rfl)
    | rebalance => exact extend (ih member) (.inl rfl)
    | flags => exact extend (ih member) (.inl rfl)

theorem crc_offset_lt (c : BchExtentCrc) : c.offset < CRC128_SIZE_MAX := by
  have stored := c.offsetLt
  have widest : bch2CrcFieldSizeMax c.type ≤ CRC128_SIZE_MAX := by cases c.type <;> decide
  omega

theorem bkeyPtrsDecode_crc_offset_lt {entries : List BchExtentEntry} {d : ExtentPtrDecoded}
    (member : d ∈ bkeyPtrsDecode size entries) : d.crc.offset < CRC128_SIZE_MAX := by
  rcases (mem_bkeyPtrsDecodeFrom member).2 with fromStart | ⟨c,_,unpacked⟩
  · rw [fromStart]
    show 0 < CRC128_SIZE_MAX
    decide
  · rw [unpacked]
    exact crc_offset_lt c

end Decode

section Validate

variable {c : BchFs} {context : BkeyValidateContext} {k : BkeyPtrsKey}

theorem fsckErrOn_ok {cond : Bool} {err : BchFsckErr} (ok : fsckErrOn cond err = .ok ()) : cond = false := by
  cases cond
  · rfl
  · cases ok

-- What extent_ptr_validate establishes of a pointer to a device that is there:
-- its bucket is one of the device's, and its size on disk stays inside it (in
-- the u32 sum the check makes).
theorem extentPtrValidate_bucket {ptrs : List BchExtentPtr} {ptr : BchExtentPtr} {sizeOndisk : Nat} {ca : BchDev}
    (valid : extentPtrValidate c ptrs ptr sizeOndisk = .ok ()) (onDev : c.dev ptr.dev = some ca) :
    ca.firstBucket.toNat ≤ ptr.offset / ca.bucketSize.toNat ∧ ptr.offset / ca.bucketSize.toNat < ca.nbuckets.toNat ∧
      (0 < ca.bucketSize.toNat → (ptr.offset % ca.bucketSize.toNat + sizeOndisk) % 2^32 ≤ ca.bucketSize.toNat) := by
  obtain ⟨_,_,rest⟩ := bind_eq_ok valid
  rw [onDev] at rest
  obtain ⟨_,after,rest⟩ := bind_eq_ok rest
  obtain ⟨_,before,spans⟩ := bind_eq_ok rest
  have offset : ptr.offset.toUInt64.toNat = ptr.offset := by
    have := ptr.offsetLt
    simp only [Nat.toUInt64_eq,UInt64.toNat_ofNat']
    omega
  have bucketSize := ca.bucketSize.toNat_lt
  replace after := fsckErrOn_ok after
  replace before := fsckErrOn_ok before
  replace spans := fsckErrOn_ok spans
  simp only [decide_eq_false_iff_not,UInt64.lt_iff_toNat_lt,UInt64.le_iff_toNat_le,UInt64.toNat_div,
    UInt16.toNat_toUInt64,offset] at after before
  simp only [decide_eq_false_iff_not,UInt32.not_lt,UInt32.le_iff_toNat_le,UInt32.toNat_add,UInt64.toNat_toUInt32,
    UInt64.toNat_mod,UInt16.toNat_toUInt32,UInt16.toNat_toUInt64,offset,Nat.toUInt32_eq,UInt32.toNat_ofNat'] at spans
  refine ⟨Nat.not_lt.mp before,Nat.not_le.mp after,fun positive => ?_⟩
  have remainder : ptr.offset % ca.bucketSize.toNat < ca.bucketSize.toNat := Nat.mod_lt _ positive
  rw [@Nat.mod_eq_of_lt (ptr.offset % ca.bucketSize.toNat) _ (by omega)] at spans
  rwa [Nat.add_mod_mod] at spans

theorem ptrsValidateLoop_ptr :
    ∀ {first st entries st'}, ptrsValidateLoop c context k first st entries = .ok st' →
      ∀ p, .ptr p ∈ entries → ∃ sizeOndisk, extentPtrValidate c (bkeyPtrs k) p sizeOndisk = .ok ()
  | _, _, [], _, _, _, member => by cases member
  | first, st, entry :: rest, st', valid, p, member => by
    obtain ⟨st'',stepped,looped⟩ := bind_eq_ok valid
    rcases List.mem_cons.mp member with rfl | later
    · obtain ⟨_,_,checked⟩ := bind_eq_ok stepped
      obtain ⟨_,ptrValid,_⟩ := bind_eq_ok checked
      exact ⟨_,ptrValid⟩
    · exact ptrsValidateLoop_ptr looped p later

theorem mem_bkeyPtrs {p : BchExtentPtr} : p ∈ bkeyPtrs k ↔ .ptr p ∈ bch2BkeyPtrsC k := by
  unfold bkeyPtrs
  rw [List.mem_filterMap]
  constructor
  · rintro ⟨e,member,found⟩
    cases e <;> simp only [Option.some.injEq,reduceCtorEq] at found
    rw [← found]
    exact member
  · intro member
    exact ⟨_,member,rfl⟩

theorem bch2BkeyPtrsValidate_ptr (valid : bch2BkeyPtrsValidate c context k = .ok ()) {p : BchExtentPtr}
    (member : p ∈ bkeyPtrs k) : ∃ sizeOndisk, extentPtrValidate c (bkeyPtrs k) p sizeOndisk = .ok () := by
  obtain ⟨_,looped,_⟩ := bind_eq_ok valid
  exact ptrsValidateLoop_ptr looped p (mem_bkeyPtrs.mp member)

end Validate

end Bcachefs
